import OpenNfm.Ftl.NodeRuns

/-!
# The calls of the reclaim

A commit writes the meta page of a full block, and calls the reclaim behind it.  The states
of these calls are those that the first part of the commit leaves; the rest of the commit
goes on from there.
-/

namespace OpenNfm.Ftl

open OpenNfm.Program

variable {l : Layout} {D : Type} {reclaim : FtlCode D Status}

/-! ## The two parts of a commit -/

/-- Write the meta page of a full block: `pmtFinishBlock` before its reclaim. -/
def pmtWriteMeta (l : Layout) : FtlCode D Status := do
  let ram ← get
  let ret ← ubiWrite (pmtCurrentBlock l ram) (pmtCurrentPage l ram) (.clusters ram.metaData) none
    false
  onSuccess ret ubiFlush

/-- Write back the dirty slot `i`, and the meta page of the block, which it has filled. -/
def pmtFillBlock (l : Layout) (i : Nat) : FtlCode D Status := do
  let ram ← get
  Code.assert (ram.pmCacheCluster i ≠ invalidCluster)
  Code.assert (PmNode.isCached (slotWord ram i) = true)
  Code.assert (PmNode.isDirty (slotWord ram i) = true)
  let ret ← pmtWriteSlot l i .success
  let ram ← get
  Code.assert (pmtCurrentPage l ram = l.pagePerPhyBlock - 1)
  onSuccess ret (pmtWriteMeta l)

/-- `DATA_Commit` up to the call of the reclaim behind slot `i`. -/
def commitUpTo (l : Layout) (reclaim : FtlCode D Status) (i : Nat) : FtlCode D Status := do
  Code.assert (i < pmtCacheCount l)
  let ret ← hdiCommit l
  let ret ← onSuccess ret (pmtCommitSlots l reclaim i 0 ret)
  onSuccess ret (pmtFillBlock l i)

/-- `DATA_Commit` behind `PMT_Commit`. -/
def commitTables (l : Layout) (ret : Status) : FtlCode D Status := do
  let ret ← onSuccess ret (bdtCommit l)
  let ret ← onSuccess ret (rootCommit l)
  onSuccess ret do
    modify fun ram => { ram with editionInHotJournal := 0, editionInColdJournal := 0 }
    pure ret

/-- `DATA_Commit` from the call of the reclaim behind slot `i` on. -/
def commitFrom (l : Layout) (reclaim : FtlCode D Status) (i : Nat) : FtlCode D Status := do
  let ret ← reclaim
  let ret ← pmtCommitSlots l reclaim (pmtCacheCount l - (i + 1)) (i + 1) ret
  let ret ← onSuccess ret (pmtInit l)
  commitTables l ret

theorem pmtCommitSlots_split (rounds more i : Nat) (ret : Status) :
    (pmtCommitSlots l reclaim (rounds + more) i ret : FtlCode D Status) =
      pmtCommitSlots l reclaim rounds i ret >>= pmtCommitSlots l reclaim more (i + rounds) := by
  induction rounds generalizing i ret with
  | zero => rw [Nat.zero_add, pmtCommitSlots, pure_bind, Nat.add_zero]
  | succ rounds ih =>
      have next : i + (rounds + 1) = i + 1 + rounds := by omega
      rw [Nat.succ_add, pmtCommitSlots, pmtCommitSlots, next, bind_assoc]
      refine congrArg _ (funext fun ram => ?_)
      split
      · exact ih _ _
      · dsimp only
        rw [bind_assoc]
        refine congrArg _ (funext fun _ => ?_)
        split
        · rw [bind_assoc]
          exact congrArg _ (funext fun _ => ih _ _)
        · simp only [bind_assoc, ih]

/-- Code that goes on only after a success has succeeded. -/
theorem exec_onSuccess {ret : Status} {rest : FtlCode D Status} {ram ram' : FtlRam}
    {store after : UbiStore D}
    (run : ((onSuccess ret rest).run ram).exec (storeMachine l.g l.capacity) store =
      .ok ((.success, ram'), after)) :
    ret = .success ∧
      (rest.run ram).exec (storeMachine l.g l.capacity) store = .ok ((.success, ram'), after) := by
  by_cases success : ret = .success
  · rw [success, onSuccess_success] at run
    exact ⟨success, run⟩
  · rw [onSuccess_other success] at run
    exact absurd (Prod.mk.inj (Prod.mk.inj (Except.ok.inj run)).1).1 success

/-- Behind an assertion that holds, the code goes on. -/
theorem exec_assert {α : Type} {condition : Prop} [Decidable condition] {rest : FtlCode D α}
    {ram : FtlRam} {store : UbiStore D} {result : (α × FtlRam) × UbiStore D} :
    (((Code.assert condition : FtlCode D Unit) >>= fun _ => rest).run ram).exec
        (storeMachine l.g l.capacity) store = .ok result ↔
      condition ∧ (rest.run ram).exec (storeMachine l.g l.capacity) store = .ok result := by
  by_cases holds : condition
  · rw [Code.assert, if_pos holds, pure_bind, and_iff_right holds]
  · rw [Code.assert, if_neg holds]
    constructor
    · intro run
      obtain ⟨_, _, _, stopped, _⟩ := Code.exec_bind_eq_ok.mp run
      cases stopped
    · intro both
      exact absurd both.1 holds

section Split

variable {i : Nat} {ram ram' : FtlRam} {store mid : UbiStore D}

/-- The slot that fills a block calls the reclaim, and the commit goes on with its status. -/
theorem exec_pmtFillBlock (reclaim : FtlCode D Status) (rounds : Nat)
    (call : ((pmtFillBlock l i).run ram).exec (storeMachine l.g l.capacity) store =
      .ok ((.success, ram'), mid)) :
    ((pmtCommitSlots l reclaim (rounds + 1) i .success).run ram).exec
        (storeMachine l.g l.capacity) store =
      ((reclaim >>= pmtCommitSlots l reclaim rounds (i + 1)).run ram').exec
        (storeMachine l.g l.capacity) mid := by
  rw [pmtFillBlock, Code.exec_bind_of_ok (Code.exec_get ram store)] at call
  obtain ⟨registered, call⟩ := exec_assert.mp call
  obtain ⟨cached, call⟩ := exec_assert.mp call
  obtain ⟨dirty, call⟩ := exec_assert.mp call
  obtain ⟨ret, ram₁, store₁, write, call⟩ := Code.exec_bind_eq_ok.mp call
  rw [Code.exec_bind_of_ok (Code.exec_get ram₁ store₁)] at call
  obtain ⟨full, call⟩ := exec_assert.mp call
  obtain ⟨rfl, metaRun⟩ := exec_onSuccess call
  have notClean :
      ¬ PmNode.isDirty (ram.rootTable.pageMappingNodes (ram.pmCacheCluster i)) = false :=
    fun clean => Bool.false_ne_true (clean.symm.trans dirty)
  have finish : (pmtFinishBlock l reclaim : FtlCode D Status) =
      pmtWriteMeta l >>= fun ret => onSuccess ret reclaim := by
    rw [pmtFinishBlock, pmtWriteMeta]
    simp only [bind_assoc]
  rw [pmtCommitSlots, Code.exec_bind_of_ok (Code.exec_get ram store), if_neg registered]
  dsimp only
  have cached' : PmNode.isCached (ram.rootTable.pageMappingNodes (ram.pmCacheCluster i)) = true :=
    cached
  rw [Code.assert, if_pos cached', pure_bind, if_neg notClean, Code.exec_bind_of_ok write,
    pmtNextBlock, bind_assoc, Code.exec_bind_of_ok (Code.exec_get ram₁ store₁), if_pos full,
    onSuccess_success, finish, bind_assoc, Code.exec_bind_of_ok metaRun, onSuccess_success]

/-- `commitUpTo` is the part of a commit before a call of the reclaim, and `commitFrom` is the
call and the rest. -/
theorem exec_dataCommit
    (call : ((commitUpTo l reclaim i).run ram).exec (storeMachine l.g l.capacity) store =
      .ok ((.success, ram'), mid)) :
    ((dataCommit l reclaim).run ram).exec (storeMachine l.g l.capacity) store =
      ((commitFrom l reclaim i).run ram').exec (storeMachine l.g l.capacity) mid := by
  obtain ⟨isSlot, call⟩ := exec_assert.mp call
  obtain ⟨ret, ram₁, store₁, hash, call⟩ := Code.exec_bind_eq_ok.mp call
  obtain ⟨ret', ram₂, store₂, slots, call⟩ := Code.exec_bind_eq_ok.mp call
  obtain ⟨rfl, fill⟩ := exec_onSuccess call
  obtain ⟨rfl, slots⟩ := exec_onSuccess slots
  have total : pmtCacheCount l = i + (pmtCacheCount l - (i + 1) + 1) := by omega
  have whole : (pmtCommit l reclaim : FtlCode D Status) =
      pmtCommitSlots l reclaim i 0 .success >>= fun ret =>
        pmtCommitSlots l reclaim (pmtCacheCount l - (i + 1) + 1) i ret >>= fun ret =>
          onSuccess ret (pmtInit l) := by
    rw [pmtCommit]
    conv_lhs => rw [total, pmtCommitSlots_split, Nat.zero_add]
    rw [bind_assoc]
  have commit : (dataCommit l reclaim : FtlCode D Status) =
      hdiCommit l >>= fun ret => onSuccess ret (pmtCommit l reclaim) >>= commitTables l := rfl
  rw [commit, Code.exec_bind_of_ok hash, onSuccess_success, whole, bind_assoc,
    Code.exec_bind_of_ok slots, bind_assoc]
  have fillRun := exec_pmtFillBlock reclaim (pmtCacheCount l - (i + 1)) fill
  rw [Code.exec_bind_congr fillRun, commitFrom]
  simp only [bind_assoc]

end Split

/-! ## What a call of the reclaim finds -/

section Calls

variable {strict : Prop} {i : Nat} {map nodes : Nat → Nat → Nat} {place : Nat → Place}
  {current : Place} {reclaimBlock : Nat} {ram : FtlRam} {store : UbiStore D} {maps : PageMap}

theorem onReturn_hdiCommit {tables : LogTables} {post : Status → FtlRam → UbiStore D → Prop}
    (fit : l.NodesFit) (logs : LogsPowered l ram store tables)
    (meets : ∀ after, WithinBlocks InTables store after → post .success (pastHdi l ram) after) :
    OnReturn l (hdiCommit l) post ram store := by
  obtain ⟨start, block, next, root, hdiLast, bdtLast, image, cursors⟩ := logs
  have hdiCursor : Cursor store.pages l.pagePerPhyBlock 1
      (PmNode.block l.g root.hdiCurrentJournal) hdiLast 0 ram.hdiCurrentBlock ram.hdiCurrentPage :=
    .of_eq cursors.hdiBlock cursors.hdiPage
  have room := Nat.succ_le_of_lt l.g.pagePerPhyBlock_pos
  have space := hdiCursor.hasRoom image.names.hdi (by rw [Nat.zero_add, Nat.one_mul]; exact room)
    Nat.one_pos
  exact spec_hdiCommit fit.toFits space trivial (fun _ _ _ _ => trivial) fun after wrote =>
    meets after (wrote.within.inTables (by omega))

theorem onReturn_pmtFillBlock {post : Status → FtlRam → UbiStore D → Prop}
    (working : Working l strict i map place nodes current reclaimBlock ram store)
    (fit : l.NodesFit) (isSlot : i < pmtCacheCount l)
    (meets : ∀ place' nodes' ram' mid,
      Closed l strict (i + 1) map place' nodes' reclaimBlock ram' mid → post .success ram' mid) :
    OnReturn l (pmtFillBlock l i) post ram store := by
  rw [pmtFillBlock, OnReturn.bind, OnReturn.get, OnReturn.bind, OnReturn.assert]
  intro registered
  rw [OnReturn.bind, OnReturn.assert]
  intro _
  rw [OnReturn.bind, OnReturn.assert]
  intro _
  rw [OnReturn.bind]
  refine onReturn_pmtWriteSlot working fit ⟨isSlot, registered⟩ ?_
  rintro place' nodes' ⟨block, page⟩ ram' after working'
  rw [OnReturn.bind, OnReturn.get, OnReturn.bind, OnReturn.assert, working'.current_page fit]
  rintro rfl
  rw [onSuccess_success, pmtWriteMeta, OnReturn.bind, OnReturn.get, OnReturn.bind,
    working'.current_block fit, working'.current_page fit]
  refine OnReturn.write fun _ _ _ => ?_
  rw [onSuccess_success, OnReturn.flush]
  exact meets _ _ _ _ working'.close

/-- At a call of the reclaim, the block is full and no node is lost. -/
theorem onReturn_commitUpTo {post : Status → FtlRam → UbiStore D → Prop} (fit : l.NodesFit)
    (good : GoodReclaim l strict reclaim) (powered : NodesPowered l strict maps ram store)
    (meets : ∀ place nodes reclaimBlock ram' mid,
      Closed l strict (i + 1) maps.current place nodes reclaimBlock ram' mid →
      post .success ram' mid) :
    OnReturn l (commitUpTo l reclaim i) post ram store := by
  obtain ⟨place, nodes, current, reclaimBlock, ⟨tables, logs, _⟩, atRest⟩ := powered
  rw [commitUpTo, OnReturn.bind, OnReturn.assert]
  intro isSlot
  rw [OnReturn.bind]
  refine onReturn_hdiCommit fit logs fun after within => ?_
  rw [onSuccess_success, OnReturn.bind]
  have atRest' :
      AtRest l strict maps.current place nodes current reclaimBlock (pastHdi l ram) after :=
    atRest.frame rfl (fun _ _ => rfl) within fun _ => not_inTables
  refine onReturn_pmtCommitSlots atRest' fit good.reclaims (Nat.zero_add i) (Nat.le_of_lt isSlot) ?_
  intro place' nodes' current' reclaimBlock' ram' after' working
  rw [onSuccess_success]
  exact onReturn_pmtFillBlock working fit isSlot fun _ _ _ _ => meets _ _ _ _ _

end Calls

end OpenNfm.Ftl
