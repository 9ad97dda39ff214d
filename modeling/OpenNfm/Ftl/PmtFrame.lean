import OpenNfm.Ftl.Rules

/-!
# What the page mapping code leaves alone

`PMT_Commit` writes and erases blocks of the page mapping table only, and changes no
variable of the journals and of the other logs.
-/

namespace OpenNfm.Ftl

open OpenNfm.Program

variable {l : Layout} {D : Type}

/-! ## The store -/

/-- No block but the given ones was written or erased. -/
structure WithinBlocks (inside : Nat → Prop) (before after : UbiStore D) : Prop where
  pages : ∀ block, ¬ inside block → after.pages block = before.pages block
  writes : ∃ writes, after.history = writes ++ before.history ∧
    ∀ entry ∈ writes, inside entry.1

namespace WithinBlocks

variable {inside : Nat → Prop} {before after : UbiStore D} {block page : Nat}

theorem refl (inside : Nat → Prop) (store : UbiStore D) : WithinBlocks inside store store :=
  ⟨fun _ _ => rfl, [], rfl, nofun⟩

theorem write (within : WithinBlocks inside before after) (isInside : inside block)
    (content : Page (FtlPage D)) : WithinBlocks inside before (after.write block page content) := by
  obtain ⟨pages, writes, history, all⟩ := within
  refine ⟨fun other outside => ?_, (block, page, content) :: writes, ?_, ?_⟩
  · have different : other ≠ block := fun same => outside (same ▸ isInside)
    rw [← pages other outside]
    funext otherPage
    exact Nand.program_other _ _ _ _ different
  · rw [List.cons_append, ← history]
    rfl
  · intro entry member
    rcases List.mem_cons.mp member with rfl | member
    · exact isInside
    · exact all entry member

theorem erase (within : WithinBlocks inside before after) (isInside : inside block) :
    WithinBlocks inside before (after.erase block) := by
  refine ⟨fun other outside => ?_, within.writes⟩
  have different : other ≠ block := fun same => outside (same ▸ isInside)
  rw [← within.pages other outside]
  funext page
  exact Nand.erase_other _ _ different

theorem trans {last : UbiStore D} (first : WithinBlocks inside before after)
    (second : WithinBlocks inside after last) : WithinBlocks inside before last := by
  obtain ⟨pages, writes, history, all⟩ := first
  obtain ⟨pages', writes', history', all'⟩ := second
  refine ⟨fun block outside => (pages' block outside).trans (pages block outside),
    writes' ++ writes, ?_, ?_⟩
  · rw [history', history, List.append_assoc]
  · intro entry member
    rcases List.mem_append.mp member with later | earlier
    · exact all' entry later
    · exact all entry earlier

theorem mono {inside' : Nat → Prop} (within : WithinBlocks inside before after)
    (more : ∀ block, inside block → inside' block) : WithinBlocks inside' before after := by
  obtain ⟨pages, writes, history, all⟩ := within
  exact ⟨fun block outside => pages block fun isInside => outside (more block isInside), writes,
    history, fun entry member => more _ (all entry member)⟩

/-- The writes to blocks outside are those of before. -/
theorem filter (within : WithinBlocks inside before after)
    {chosen : Nat × Nat × Page (FtlPage D) → Bool}
    (outside : ∀ entry, chosen entry = true → ¬ inside entry.1) :
    after.history.filter chosen = before.history.filter chosen := by
  obtain ⟨writes, history, all⟩ := within.writes
  rw [history, List.filter_append]
  have none : writes.filter chosen = [] :=
    List.filter_eq_nil_iff.mpr fun entry member picked => outside entry picked (all entry member)
  rw [none, List.nil_append]

end WithinBlocks

/-! ## The memory -/

/-- The variables that the page mapping code does not touch. -/
def FtlRam.besidesPmt (ram : FtlRam) : FtlRam :=
  { ram with
    rootTable :=
      { ram.rootTable with
        pmtCurrentBlock := 0, pmtReclaimBlock := 0, pageMappingNodes := fun _ => 0 }
    blockDirtyTable := fun _ => 0
    pmNodeCaches := fun _ _ => 0
    pmCacheOriginLocation := fun _ => 0
    pmCacheCluster := fun _ => 0
    metaData := fun _ => 0 }

/-- The variables of the page mapping table but for the dirty counts. -/
structure PmtPart where
  nodes : Nat → Nat
  current : Nat
  reclaim : Nat
  caches : Nat → Nat → Nat
  origins : Nat → Nat
  clusters : Nat → Nat
  metaData : Nat → Nat

/-- The variables of the mapping. -/
def FtlRam.pmtPart (ram : FtlRam) : PmtPart where
  nodes := ram.rootTable.pageMappingNodes
  current := ram.rootTable.pmtCurrentBlock
  reclaim := ram.rootTable.pmtReclaimBlock
  caches := ram.pmNodeCaches
  origins := ram.pmCacheOriginLocation
  clusters := ram.pmCacheCluster
  metaData := ram.metaData

/-- Nothing but the page mapping table has changed, and its blocks are inside. -/
structure PmtWithin (l : Layout) (inside : Nat → Prop) (earlier : FtlRam) (before : UbiStore D)
    (ram : FtlRam) (store : UbiStore D) : Prop where
  besides : ram.besidesPmt = earlier.besidesPmt
  store : WithinBlocks inside before store
  current : inside (pmtCurrentBlock l ram)
  reclaim : inside (PmNode.block l.g ram.rootTable.pmtReclaimBlock)

/-- The blocks of the page mapping table are inside, and inside are blocks that a word can
name. -/
structure PmtBlocks (l : Layout) (inside : Nat → Prop) : Prop where
  table : ∀ block, Layout.pmtStartBlock ≤ block → block < l.dataStartBlock →
    block < l.capacity → inside block
  small : ∀ block, inside block → block < l.capacity + 2

section Frame

variable {inside : Nat → Prop} {earlier : FtlRam} {before : UbiStore D}

/-- Code of the page mapping table. -/
abbrev KeepsPmt (l : Layout) (inside : Nat → Prop) (earlier : FtlRam) (before : UbiStore D)
    {α : Type} (code : FtlCode D α) : Prop :=
  Code.Keeps (storeMachine l.g l.capacity) (PmtWithin l inside earlier before) code

theorem keeps_ubiRead (block page : Nat) :
    KeepsPmt l inside earlier before (ubiRead block page) :=
  fun ram _ kept => returns_ubiRead ⟨ram, kept⟩ fun _ _ => kept

theorem keeps_ubiFlush : KeepsPmt l inside earlier before ubiFlush :=
  fun ram _ kept => spec_ubiFlush.mpr ⟨⟨ram, kept⟩, kept⟩

theorem keeps_ubiWrite {block page : Nat} {main : FtlPage D} {spare : Option Spare} {async : Bool}
    (isInside : inside block) :
    KeepsPmt l inside earlier before (ubiWrite block page main spare async) := by
  intro ram store kept
  refine returns_ubiWrite ⟨ram, kept⟩ fun _ _ _ => ?_
  have written : PmtWithin l inside earlier before ram
      (store.write block page ⟨main, spare.getD .ones⟩) :=
    ⟨kept.besides, kept.store.write isInside _, kept.current, kept.reclaim⟩
  exact ⟨⟨ram, written⟩, written⟩

theorem keeps_loadClusters (main : FtlPage D) :
    KeepsPmt l inside earlier before (loadClusters main) := by
  unfold loadClusters
  split
  · exact .pure _
  · exact .pure _
  · exact .halt _

theorem keeps_rootNode (cluster : Nat) :
    KeepsPmt l inside earlier before (rootNode l cluster) := by
  unfold rootNode
  refine .bind .get fun ram => ?_
  split
  · exact .pure _
  · exact .halt _

theorem keeps_addDirty (block : Nat) :
    KeepsPmt l inside earlier before (addDirty l block) :=
  .bind (.modifies fun _ _ kept => ⟨kept.besides, kept.store, kept.current, kept.reclaim⟩) fun _ =>
    .bind .get fun _ => .assert _

theorem keeps_pmtInit : KeepsPmt l inside earlier before (pmtInit l) :=
  .bind (.modifies fun _ _ kept => ⟨kept.besides, kept.store, kept.current, kept.reclaim⟩) fun _ =>
    .pure _

theorem PmtWithin.setNode {cluster word : Nat} {ram : FtlRam} {store : UbiStore D}
    (kept : PmtWithin l inside earlier before ram store) :
    PmtWithin l inside earlier before (setNode ram cluster word) store :=
  ⟨kept.besides, kept.store, kept.current, kept.reclaim⟩

/-! ### Reclaim -/

theorem spec_pmtFindDirty {crash : UbiStore D → Prop} {target nextCount : Nat} {blocks : List Nat}
    {ram : FtlRam} {store : UbiStore D}
    {post : Option Nat × Nat → FtlRam → UbiStore D → Prop}
    (kept : PmtWithin l inside earlier before ram store)
    (safe : ∀ after, PmtWithin l inside earlier before ram after → crash after)
    (meets : ∀ found count after, (∀ i, found = some i → i ∈ blocks) →
      PmtWithin l inside earlier before ram after → post (found, count) ram after) :
    Code.spec (storeMachine l.g l.capacity) crash True (pmtFindDirty target blocks nextCount) post
      ram store := by
  induction blocks generalizing nextCount store with
  | nil => exact Code.spec_pure.mpr ⟨safe store kept, meets none _ store nofun kept⟩
  | cons block rest ih =>
      have later : ∀ {count : Nat} {after : UbiStore D},
          PmtWithin l inside earlier before ram after →
          Code.spec (storeMachine l.g l.capacity) crash True (pmtFindDirty target rest count) post
            ram after := fun kept' =>
        ih kept' fun found count after member => meets found count after fun i same =>
          List.mem_cons_of_mem _ (member i same)
      simp only [pmtFindDirty, Code.spec_bind, Code.spec_get]
      refine ⟨safe store kept, ?_⟩
      split
      · rw [Code.spec_bind]
        refine returns_ubiReadStatus (safe store kept) fun ret polls => ?_
        have kept' : PmtWithin l inside earlier before ram { store with polls := polls } :=
          ⟨kept.besides, ⟨kept.store.pages, kept.store.writes⟩, kept.current, kept.reclaim⟩
        refine ⟨safe _ kept', ?_⟩
        split
        · refine Code.spec_pure.mpr ⟨safe _ kept', meets _ _ _ (fun i same => ?_) kept'⟩
          rw [← Option.some.inj same]
          exact List.mem_cons_self
        · exact later kept'
      · exact later kept

theorem spec_pmtFindLoop {crash : UbiStore D → Prop} {rounds target nextCount : Nat}
    {ram : FtlRam} {store : UbiStore D} {post : Nat → FtlRam → UbiStore D → Prop}
    (kept : PmtWithin l inside earlier before ram store)
    (safe : ∀ after, PmtWithin l inside earlier before ram after → crash after)
    (meets : ∀ i after, Layout.pmtStartBlock ≤ i → i < l.dataStartBlock →
      PmtWithin l inside earlier before ram after → post i ram after) :
    Code.spec (storeMachine l.g l.capacity) crash True (pmtFindLoop l rounds target nextCount) post
      ram store := by
  induction rounds generalizing target nextCount store with
  | zero => exact returns_halt (safe store kept)
  | succ rounds ih =>
      simp only [pmtFindLoop, Code.spec_bind]
      refine spec_pmtFindDirty kept safe fun found count after member kept' => ?_
      cases found with
      | none => exact ih kept'
      | some i =>
          have inTable := List.mem_range'_1.mp (member i rfl)
          exact Code.spec_pure.mpr ⟨safe after kept', meets i after inTable.1 inTable.2 kept'⟩

theorem keeps_pmtValidNode (cluster : Nat) :
    KeepsPmt l inside earlier before (pmtValidNode l cluster) := by
  unfold pmtValidNode
  refine .bind (keeps_rootNode cluster) fun node => ?_
  split
  · split
    · exact .pure _
    · refine .bind .get fun ram => ?_
      split
      · exact .pure _
      · exact .halt _
  · exact .pure _

theorem keeps_pmtCopyPage {cluster dirtyBlock page reclaimBlock reclaimPage : Nat}
    {cleared : Option Nat} (isInside : inside reclaimBlock) :
    KeepsPmt l inside earlier before (pmtCopyPage l cluster dirtyBlock page reclaimBlock
      reclaimPage cleared) := by
  refine .bind (keeps_ubiRead _ _) fun answer => keeps_onSuccess ?_
  refine .bind (keeps_ubiWrite isInside) fun ret => keeps_onSuccess ?_
  refine .bind (.modifies fun ram store kept => ?_) fun _ => .pure _
  cases cleared <;> exact ⟨kept.besides, kept.store, kept.current, kept.reclaim⟩

/-- The page behind the copies is at most as many pages further as there are rounds. -/
theorem spec_pmtCopyPages {crash : UbiStore D → Prop} {clusters : Nat → Nat}
    {dirtyBlock reclaimBlock rounds page reclaimPage : Nat} {ret : Status} {ram : FtlRam}
    {store : UbiStore D} {post : Nat × Status → FtlRam → UbiStore D → Prop}
    (isInside : inside reclaimBlock) (kept : PmtWithin l inside earlier before ram store)
    (safe : ∀ ram' after, PmtWithin l inside earlier before ram' after → crash after)
    (meets : ∀ nextPage ret ram' after, nextPage ≤ reclaimPage + rounds →
      PmtWithin l inside earlier before ram' after → post (nextPage, ret) ram' after) :
    Code.spec (storeMachine l.g l.capacity) crash True
      (pmtCopyPages l clusters dirtyBlock reclaimBlock rounds page reclaimPage ret) post ram
      store := by
  induction rounds generalizing page reclaimPage ret ram store with
  | zero => exact Code.spec_pure.mpr ⟨safe _ _ kept, meets _ _ _ _ (Nat.le_refl _) kept⟩
  | succ rounds ih =>
      refine (keeps_pmtValidNode _).andThen kept safe ?_
      rintro ⟨node, cleared⟩ ram' after kept'
      dsimp only
      split
      · refine (keeps_pmtCopyPage isInside).andThen kept' safe fun ret ram' after kept' => ?_
        refine ih kept' fun nextPage ret ram' after le => meets nextPage ret ram' after ?_
        split at le <;> omega
      · exact ih kept' fun nextPage ret ram' after le => meets nextPage ret ram' after (by omega)

theorem keeps_pmtErase {block : Nat} {change : FtlRam → FtlRam} (isInside : block < l.capacity →
      inside block)
    (stable : ∀ ram store, block < l.capacity → PmtWithin l inside earlier before ram store →
      PmtWithin l inside earlier before (change ram) store) :
    KeepsPmt l inside earlier before (pmtErase block change) := by
  intro ram store kept
  rw [pmtErase, Code.spec_bind]
  refine returns_ubiErase ⟨ram, kept⟩ fun isBlock => ?_
  have erased : PmtWithin l inside earlier before ram (store.erase block) :=
    ⟨kept.besides, kept.store.erase (isInside isBlock), kept.current, kept.reclaim⟩
  have changed := stable ram _ isBlock erased
  simp only [onSuccess_success, Code.spec_bind, Code.spec_modify, Code.spec_pure]
  exact ⟨⟨ram, erased⟩, ⟨ram, erased⟩, ⟨_, changed⟩, changed⟩

/-- The reclaim of a block of the page mapping table. -/
theorem keeps_pmtReclaimBlock {i : Nat} (blocks : PmtBlocks l inside) (fits : l.Fits)
    (first : Layout.pmtStartBlock ≤ i) (last : i < l.dataStartBlock) :
    KeepsPmt l inside earlier before (pmtReclaimBlock l i) := by
  intro ram store kept
  have safe : ∀ ram' after, PmtWithin l inside earlier before ram' after →
      ∃ ram', PmtWithin l inside earlier before ram' after := fun ram' _ kept => ⟨ram', kept⟩
  have pages := l.g.pagePerPhyBlock_pos
  have isInside := blocks.table i first last
  have word : i < l.capacity → PmNode.block l.g (PmNode.setBlockPage l.g i 0) = i :=
    fun isBlock => fits.block_word (by omega) pages
  simp only [pmtReclaimBlock, Code.spec_bind, Code.spec_get]
  refine ⟨safe _ _ kept, ?_⟩
  split
  · have reclaimInside := kept.reclaim
    simp only [Code.spec_bind, pmtCopyBlock]
    refine (keeps_ubiRead _ _).spec kept safe fun answer ram' after kept' => ?_
    split
    · rw [Code.spec_bind]
      refine (keeps_loadClusters _).spec kept' safe fun clusters ram' after kept' => ?_
      refine spec_pmtCopyPages reclaimInside kept' safe
        fun reclaimPage ret ram' after le kept' => ?_
      refine keeps_onSuccess (keeps_pmtErase isInside fun ram'' store'' isBlock kept'' => ?_) _ _
        kept'
      · have current : PmNode.block l.g (PmNode.setBlockPage l.g
            (PmNode.block l.g ram.rootTable.pmtReclaimBlock) reclaimPage) =
            PmNode.block l.g ram.rootTable.pmtReclaimBlock :=
          fits.block_word (blocks.small _ reclaimInside)
            (by rw [Layout.pagePerPhyBlock] at le; omega)
        refine ⟨kept''.besides, kept''.store, ?_, ?_⟩
        · rw [pmtCurrentBlock, switchBlocks, current]
          exact reclaimInside
        · rw [switchBlocks, word isBlock]
          exact isInside isBlock
    · rename_i failed
      refine Code.spec_pure.mpr ⟨⟨_, kept'⟩, ?_⟩
      rw [onSuccess_other failed]
      exact Code.spec_pure.mpr ⟨⟨_, kept'⟩, kept'⟩
  · refine keeps_pmtErase isInside (fun ram'' store'' isBlock kept'' => ?_) _ _ kept
    refine ⟨kept''.besides, kept''.store, ?_, kept''.reclaim⟩
    rw [pmtCurrentBlock, restartBlock, word isBlock]
    exact isInside isBlock

theorem keeps_pmtReclaimBlocks {fuel : Nat} (blocks : PmtBlocks l inside) (fits : l.Fits) :
    KeepsPmt l inside earlier before (pmtReclaimBlocks l fuel) := by
  intro ram store kept
  rw [pmtReclaimBlocks, Code.spec_bind]
  exact spec_pmtFindLoop kept (fun _ kept => ⟨ram, kept⟩) fun i after first last kept' =>
    keeps_pmtReclaimBlock blocks fits first last ram after kept'

/-! ### Commit -/

variable {reclaim : FtlCode D Status}

theorem keeps_pmtStoreNode {i : Nat} (blocks : PmtBlocks l inside) (fits : l.Fits)
    {ram : FtlRam} {store : UbiStore D} (kept : PmtWithin l inside earlier before ram store)
    (notLast : pmtCurrentPage l ram ≠ l.pagePerPhyBlock - 1) :
    Code.spec (storeMachine l.g l.capacity)
      (fun after => ∃ ram', PmtWithin l inside earlier before ram' after) True
      (pmtStoreNode l i) (fun _ ram' after => PmtWithin l inside earlier before ram' after) ram
      store := by
  simp only [pmtStoreNode, Code.spec_bind, Code.spec_get]
  refine ⟨⟨ram, kept⟩, (keeps_ubiWrite kept.current).spec kept (fun ram' _ met => ⟨ram', met⟩) ?_⟩
  intro ret ram' after kept'
  unfold onSuccess
  split
  · have isPage : pmtCurrentPage l ram + 1 < l.g.pagePerPhyBlock := by
      have within := Nat.mod_lt (ram.rootTable.pmtCurrentBlock / 4) l.g.pagePerPhyBlock_pos
      rw [pmtCurrentPage, PmNode.page, Layout.pagePerPhyBlock] at notLast
      rw [pmtCurrentPage, PmNode.page]
      omega
    have word := fits.block_word (blocks.small _ kept.current) isPage
    rw [Code.spec_bind, Code.spec_modify]
    have stored : PmtWithin l inside earlier before
        (storedNode l i (pmtCurrentBlock l ram) (pmtCurrentPage l ram) ram') after := by
      refine ⟨kept'.besides, kept'.store, ?_, kept'.reclaim⟩
      rw [pmtCurrentBlock, storedNode, word]
      exact kept.current
    refine ⟨⟨ram', kept'⟩, ?_⟩
    exact (keeps_addDirty _).andThen stored (fun ram' _ met => ⟨ram', met⟩)
      fun _ ram' after kept' => Code.spec_pure.mpr ⟨⟨ram', kept'⟩, kept'⟩
  · exact Code.spec_pure.mpr ⟨⟨ram', kept'⟩, kept'⟩

theorem keeps_pmtWriteSlot {i : Nat} {ret : Status} (blocks : PmtBlocks l inside)
    (fits : l.Fits) : KeepsPmt l inside earlier before (pmtWriteSlot l i ret) := by
  intro ram store kept
  simp only [pmtWriteSlot, Code.spec_bind, Code.spec_get]
  refine ⟨⟨ram, kept⟩, ?_⟩
  split
  · rw [Code.spec_bind, Code.spec_assert]
    refine ⟨⟨ram, kept⟩, fun notLast => ?_, fun _ => trivial⟩
    unfold onSuccess
    split
    · exact keeps_pmtStoreNode blocks fits kept notLast
    · exact Code.spec_pure.mpr ⟨⟨ram, kept⟩, kept⟩
  · exact Code.spec_pure.mpr ⟨⟨ram, kept⟩, kept⟩

theorem keeps_pmtFinishBlock (keeps : KeepsPmt l inside earlier before reclaim) :
    KeepsPmt l inside earlier before (pmtFinishBlock l reclaim) := by
  intro ram store kept
  have safe : ∀ ram' after, PmtWithin l inside earlier before ram' after →
      ∃ ram', PmtWithin l inside earlier before ram' after := fun ram' _ kept => ⟨ram', kept⟩
  simp only [pmtFinishBlock, Code.spec_bind, Code.spec_get]
  refine ⟨⟨ram, kept⟩, (keeps_ubiWrite kept.current).spec kept safe ?_⟩
  intro ret ram' after kept'
  exact (keeps_onSuccess keeps_ubiFlush).spec kept' safe fun _ => keeps_onSuccess keeps

theorem keeps_pmtNextBlock {ret : Status} (keeps : KeepsPmt l inside earlier before reclaim) :
    KeepsPmt l inside earlier before (pmtNextBlock l reclaim ret) := by
  refine .bind .get fun ram => ?_
  split
  · exact keeps_onSuccess (keeps_pmtFinishBlock keeps)
  · exact .pure _

theorem keeps_pmtCommitSlots {rounds i : Nat} {ret : Status} (blocks : PmtBlocks l inside)
    (fits : l.Fits) (keeps : KeepsPmt l inside earlier before reclaim) :
    KeepsPmt l inside earlier before (pmtCommitSlots l reclaim rounds i ret) := by
  induction rounds generalizing i ret with
  | zero => exact .pure _
  | succ rounds ih =>
      refine .bind .get fun ram => ?_
      split
      · exact ih
      · refine .bind (.assert _) fun _ => ?_
        split
        · exact .bind (.modifies fun _ _ kept => kept.setNode) fun _ => ih
        · exact .bind (keeps_pmtWriteSlot blocks fits) fun ret =>
            .bind (keeps_pmtNextBlock keeps) fun ret => ih

/-- `PMT_Commit` leaves everything but the page mapping table alone. -/
theorem keeps_pmtCommit (blocks : PmtBlocks l inside) (fits : l.Fits)
    (keeps : KeepsPmt l inside earlier before reclaim) :
    KeepsPmt l inside earlier before (pmtCommit l reclaim) :=
  .bind (keeps_pmtCommitSlots blocks fits keeps) fun _ => keeps_onSuccess keeps_pmtInit

end Frame

end OpenNfm.Ftl
