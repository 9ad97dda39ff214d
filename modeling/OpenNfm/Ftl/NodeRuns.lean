import OpenNfm.Ftl.LogRuns
import OpenNfm.Ftl.NodeMount
import OpenNfm.Program.Agreement

/-!
# Runs of the page mapping table

Any order of updates, searches, commits, mounts and losses of power keeps the nodes, if the
reclaims inside the commits take free blocks and each mount knows the clusters in the
current block.
-/

namespace OpenNfm.Ftl

open OpenNfm.Program

variable {l : Layout} {D : Type}

/-! ## Runs -/

/-- The memory between two calls: lost, as a format leaves it, or as a mount and the calls
behind it leave it. -/
inductive Memory where
  | off
  | formatted (ram : FtlRam)
  | mounted (ram : FtlRam)

/-- A place for a logical page: a page of a data block, or no place at all. -/
def IsDataPlace (l : Layout) (block page : Nat) : Prop :=
  (l.dataStartBlock ≤ block ∧ block < l.capacity ∧ page < l.pagePerPhyBlock) ∨
    block = invalidBlock ∧ page = invalidPage

/-- What the rest of the FTL does between two calls of the page mapping table. -/
structure DataStep (l : Layout) (ram : FtlRam) (store : UbiStore D) (ram' : FtlRam)
    (after : UbiStore D) : Prop where
  cursors : ram'.logCursors = ram.logCursors
  part : ram'.pmtPart = ram.pmtPart
  counts : ∀ block, IsPmtBlock l block → ram'.blockDirtyTable block = ram.blockDirtyTable block
  within : WithinBlocks (fun block => l.dataStartBlock ≤ block ∧ block < l.capacity) store after

/-- A run of `FTL_Format`, `PMT_Update`, `PMT_Search`, `DATA_Commit`, the loading of the tables
by `FTL_Init`, the code of the data pages, and losses of power between the calls.  The words
of the logical pages become durable when a root is written.  A mount may have any memory
before it that is `known`. -/
inductive NodeRun (l : Layout) (reclaim : FtlCode D Status) (known : Root → FtlRam → Prop) :
    Memory → UbiStore D → PageMap → Prop
  | format {ram ram' : FtlRam} {store after : UbiStore D} (blank : BlankStore store)
      (run : ((ftlFormat l).run ram).exec (storeMachine l.g l.capacity) store =
        .ok ((.success, ram'), after)) :
      NodeRun l reclaim known (.formatted ram') after
        ⟨fun _ _ => PmNode.invalid, fun _ _ => PmNode.invalid⟩
  | data {ram ram' : FtlRam} {store after : UbiStore D} {maps : PageMap}
      (earlier : NodeRun l reclaim known (.mounted ram) store maps)
      (step : DataStep l ram store ram' after) :
      NodeRun l reclaim known (.mounted ram') after maps
  | update {ram ram' : FtlRam} {store after : UbiStore D} {maps : PageMap}
      {pageAddr block page : Nat} {ret : Status}
      (earlier : NodeRun l reclaim known (.mounted ram) store maps)
      (inCapacity : pageAddr < l.ftlCapacity) (isPlace : IsDataPlace l block page)
      (run : ((pmtUpdate l reclaim pageAddr block page).run ram).exec
        (storeMachine l.g l.capacity) store = .ok ((ret, ram'), after)) :
      NodeRun l reclaim known (.mounted ram') after
        (if ret = .success then
          (maps.onRoot store after).enter l pageAddr (pageWord l block page)
        else maps.onRoot store after)
  | search {ram ram' : FtlRam} {store after : UbiStore D} {maps : PageMap} {pageAddr : Nat}
      {answer : Status × Nat × Nat} (earlier : NodeRun l reclaim known (.mounted ram) store maps)
      (inCapacity : pageAddr < l.ftlCapacity)
      (run : ((pmtSearch l reclaim pageAddr).run ram).exec (storeMachine l.g l.capacity) store =
        .ok ((answer, ram'), after)) :
      NodeRun l reclaim known (.mounted ram') after (maps.onRoot store after)
  | commit {ram ram' : FtlRam} {store after : UbiStore D} {maps : PageMap} {ret : Status}
      (earlier : NodeRun l reclaim known (.mounted ram) store maps)
      (run : ((dataCommit l reclaim).run ram).exec (storeMachine l.g l.capacity) store =
        .ok ((ret, ram'), after)) :
      NodeRun l reclaim known (.mounted ram') after (maps.onRoot store after)
  | powerOff {memory : Memory} {store : UbiStore D} {maps : PageMap}
      (earlier : NodeRun l reclaim known memory store maps) :
      NodeRun l reclaim known .off store ⟨maps.durable, maps.durable⟩
  | mount {memory : Memory} {lost ram' : FtlRam} {store after : UbiStore D} {maps : PageMap}
      {ret : Status} (earlier : NodeRun l reclaim known memory store maps)
      (ordered : RootsOrdered l store)
      (isKnown : ∀ root, store.lastRoot = some root → known root lost)
      (run : ((ftlInitTables l).run lost).exec (storeMachine l.g l.capacity) store =
        .ok ((ret, ram'), after)) :
      NodeRun l reclaim known (.mounted ram') after ⟨maps.durable, maps.durable⟩

/-! ## What every run keeps -/

/-- What holds with the memory, or of the device alone. -/
def NodesHold (l : Layout) (strict : Prop) (memory : Memory) (store : UbiStore D) (maps : PageMap) :
    Prop :=
  match memory with
  | .off => NodesLeft l strict maps.durable store
  | .formatted ram => NodesLeft l strict maps.durable store ∧ store.lastRoot = some ram.rootTable ∧
      ∃ place current reclaimBlock, NamedNodes l strict maps.current place current reclaimBlock
        ram.rootTable ram.blockDirtyTable store
  | .mounted ram => NodesPowered l strict maps ram store

section Runs

variable {strict : Prop} {memory : Memory} {ram ram' : FtlRam} {store after : UbiStore D}
  {maps : PageMap} {reclaim : FtlCode D Status}

theorem NodesHold.left (hold : NodesHold l strict memory store maps) :
    NodesLeft l strict maps.durable store := by
  cases memory with
  | off => exact hold
  | formatted ram => exact hold.1
  | mounted ram => exact NodesPowered.left hold

theorem clusterIndex_lt {pageAddr : Nat} (fit : l.NodesFit)
    (inCapacity : pageAddr < l.ftlCapacity) :
    clusterIndex l pageAddr < pmtClusterCount l := by
  have perNode := fit.perNode
  rw [clusterIndex, Nat.div_lt_iff_lt_mul perNode]
  have := Nat.lt_mul_div_succ (l.ftlCapacity + l.pmPerNode - 1) perNode
  rw [Nat.mul_succ, Nat.mul_comm] at this
  rw [pmtClusterCount]
  omega

theorem IsDataPlace.outside {block page : Nat} (fit : l.NodesFit)
    (isPlace : IsDataPlace l block page) :
    OutsideTable l (pageWord l block page) := by
  unfold pageWord
  split
  · rename_i valid
    rcases isPlace with ⟨first, last, isPage⟩ | ⟨invalid, _⟩
    · refine Or.inr fun inTable => ?_
      rw [fit.block_word (by omega) isPage] at inTable
      exact Nat.not_lt.mpr first inTable.2
    · exact absurd invalid valid
  · exact Or.inl rfl

theorem NodesPowered.data (powered : NodesPowered l strict maps ram store)
    (step : DataStep l ram store ram' after) : NodesPowered l strict maps ram' after := by
  obtain ⟨place, nodes, current, reclaimBlock, ⟨tables, logs, root, place', current', reclaimBlock',
    last, named⟩, atRest⟩ := powered
  have outside : ∀ block, IsPmtBlock l block →
      ¬ (l.dataStartBlock ≤ block ∧ block < l.capacity) := fun block inArea inData =>
    Nat.not_lt.mpr inData.1 inArea.2
  have behind : WithinBlocks (BehindTables l) store after := step.within.mono fun block inData =>
    ⟨Nat.le_trans (Nat.le_add_right _ _) inData.1, Nat.lt_add_right 2 inData.2⟩
  have sameLast : after.lastRoot = store.lastRoot := by
    unfold UbiStore.lastRoot
    rw [UbiStore.rootWrites_within behind fun _ inPair => not_behind inPair (by omega)]
  exact ⟨_, _, _, _, ⟨tables, logs.work ⟨step.cursors, behind⟩, root, _, _, _, sameLast.trans last,
    named.within step.within outside⟩, atRest.frame step.part step.counts step.within outside⟩

theorem NodeRun.hold (fit : l.NodesFit) (three : ThreeTables l)
    (good : GoodReclaim l strict reclaim)
    (run : NodeRun l reclaim (MetaKnown l) memory store maps) :
    maps.InData l ∧ NodesHold l strict memory store maps := by
  induction run with
  | format blank run =>
      rename_i before ram' store after
      refine ⟨fun _ _ => ⟨Or.inl rfl, Or.inl rfl⟩, ?_⟩
      have formatted : OnReturn l (ftlFormat l) (fun ret ram' after => ret = .success →
          NodesHold l strict (.formatted ram') after
            ⟨fun _ _ => PmNode.invalid, fun _ _ => PmNode.invalid⟩) before store :=
        onReturn_ftlFormat_nodes fit three blank.pages blank.history fun _ _ _ left success =>
          left success strict
      exact formatted.of_run run rfl
  | data earlier step ih => exact ⟨ih.1, NodesPowered.data ih.2 step⟩
  | update earlier inCapacity isPlace run ih =>
      rename_i before ram' store after maps pageAddr block page ret
      have updated : OnReturn l (pmtUpdate l reclaim pageAddr block page) (fun ret ram' after =>
          ret = .success ∧ NodesPowered l strict ((maps.onRoot store after).enter l pageAddr
            (pageWord l block page)) ram' after) before store :=
        onReturn_pmtUpdate fit three good ih.2 ih.1 (clusterIndex_lt fit inCapacity)
          fun _ _ powered => ⟨rfl, powered⟩
      obtain ⟨rfl, powered⟩ := updated.of_run run
      rw [if_pos rfl]
      exact ⟨(ih.1.onRoot store after).enter (isPlace.outside fit), powered⟩
  | search earlier inCapacity run ih =>
      rename_i before ram' store after maps pageAddr answer
      have searched : OnReturn l (pmtSearch l reclaim pageAddr) (fun _ ram' after =>
          NodesPowered l strict (maps.onRoot store after) ram' after) before store :=
        onReturn_pmtSearch fit three good ih.2 (clusterIndex_lt fit inCapacity) fun _ _ => id
      exact ⟨ih.1.onRoot store after, searched.of_run run⟩
  | commit earlier run ih =>
      rename_i before ram' store after maps ret
      obtain ⟨place, nodes, current, reclaimBlock, powered⟩ := ih.2
      have committed : OnReturn l (dataCommit l reclaim) (fun _ ram' after =>
          NodesPowered l strict (maps.onRoot store after) ram' after) before store :=
        onReturn_dataCommit fit three good powered fun _ _ _ _ _ after powered' _ next => by
          rw [← maps.onRoot_next next] at powered'
          exact ⟨_, _, _, _, powered'⟩
      exact ⟨ih.1.onRoot store after, committed.of_run run⟩
  | powerOff earlier ih => exact ⟨fun cluster k => ⟨(ih.1 cluster k).2, (ih.1 cluster k).2⟩,
      ih.2.left⟩
  | mount earlier ordered isKnown run ih =>
      rename_i memory lost ram' store after maps ret
      have loaded : OnReturn l (ftlInitTables l) (fun _ ram' after =>
          NodesPowered l strict ⟨maps.durable, maps.durable⟩ ram' after) lost store :=
        onReturn_ftlInitTables fit three ih.2.left ordered isKnown fun _ _ => id
      exact ⟨fun cluster k => ⟨(ih.1 cluster k).2, (ih.1 cluster k).2⟩, loaded.of_run run⟩

end Runs

/-! ## Runs whose reclaims meet a condition

`reclaimWhere` stops where the condition fails.  So a run with it is a run of the code, in
which every reclaim has met the condition. -/

section Conditions

variable {condition : Nat → FtlRam → Bool} {fuel : Nat} {reclaim reclaim' : FtlCode D Status}

/-- Code of the FTL that agrees with other code. -/
abbrev Agrees (l : Layout) {α : Type} (first second : FtlCode D α) : Prop :=
  Code.Agrees (storeMachine l.g l.capacity) first second

section AnyMachine

variable {E : Type} {machine : Machine (UbiOp D) (UbiAns D) E}

theorem agrees_reclaimWhere :
    Code.Agrees machine (reclaimWhere l condition fuel) (pmtReclaimBlocks l fuel) := by
  refine .after _ fun i ram state result run => ?_
  exact Code.Agrees.assert ram state result run

theorem agrees_onSuccess {ret : Status} {first second : FtlCode D Status}
    (agrees : Code.Agrees machine first second) :
    Code.Agrees machine (onSuccess ret first) (onSuccess ret second) := by
  unfold onSuccess
  split
  · exact agrees
  · exact .refl _

theorem agrees_pmtNextBlock {ret : Status} (agrees : Code.Agrees machine reclaim reclaim') :
    Code.Agrees machine (pmtNextBlock l reclaim ret) (pmtNextBlock l reclaim' ret) := by
  refine .after _ fun ram => ?_
  split
  · exact agrees_onSuccess <| .after _ fun ram => .after _ fun ret => .after _ fun ret =>
      agrees_onSuccess agrees
  · exact .refl _

theorem agrees_pmtCommitSlots {rounds i : Nat} {ret : Status}
    (agrees : Code.Agrees machine reclaim reclaim') :
    Code.Agrees machine (pmtCommitSlots l reclaim rounds i ret)
      (pmtCommitSlots l reclaim' rounds i ret) := by
  induction rounds generalizing i ret with
  | zero => exact .refl _
  | succ rounds ih =>
      refine .after _ fun ram => ?_
      split
      · exact ih
      · refine .after _ fun _ => ?_
        split
        · exact .after _ fun _ => ih
        · exact .after _ fun ret => .bind (agrees_pmtNextBlock agrees) fun ret => ih

theorem agrees_dataCommit (agrees : Code.Agrees machine reclaim reclaim') :
    Code.Agrees machine (dataCommit l reclaim) (dataCommit l reclaim') := by
  refine .after _ fun ret => .bind (agrees_onSuccess ?_) fun ret => .refl _
  exact .bind (agrees_pmtCommitSlots agrees) fun ret => .refl _

theorem agrees_pmtCached {cluster : Nat} (agrees : Code.Agrees machine reclaim reclaim') :
    Code.Agrees machine (pmtCached l reclaim cluster) (pmtCached l reclaim' cluster) := by
  refine .after _ fun node => ?_
  split
  · refine .bind (.after _ fun ram => ?_) fun _ => .refl _
    split
    · exact .refl _
    · exact .bind (agrees_dataCommit agrees) fun _ => .refl _
  · exact .refl _

theorem agrees_pmtUpdate {pageAddr block page : Nat}
    (agrees : Code.Agrees machine reclaim reclaim') :
    Code.Agrees machine (pmtUpdate l reclaim pageAddr block page)
      (pmtUpdate l reclaim' pageAddr block page) :=
  .bind (agrees_pmtCached agrees) fun _ => .refl _

theorem agrees_pmtSearch {pageAddr : Nat} (agrees : Code.Agrees machine reclaim reclaim') :
    Code.Agrees machine (pmtSearch l reclaim pageAddr) (pmtSearch l reclaim' pageAddr) :=
  .bind (agrees_pmtCached agrees) fun _ => .refl _

end AnyMachine

/-- A run with assertions is a run without them. -/
theorem NodeRun.agrees {known : Root → FtlRam → Prop} {memory : Memory} {store : UbiStore D}
    {maps : PageMap} (agrees : Agrees l reclaim reclaim')
    (run : NodeRun l reclaim known memory store maps) :
    NodeRun l reclaim' known memory store maps := by
  induction run with
  | format blank run => exact .format blank run
  | data _ step ih => exact ih.data step
  | update _ inCapacity isPlace run ih =>
      exact ih.update inCapacity isPlace (agrees_pmtUpdate agrees _ _ _ run)
  | search _ inCapacity run ih => exact ih.search inCapacity (agrees_pmtSearch agrees _ _ _ run)
  | commit _ run ih => exact ih.commit (agrees_dataCommit agrees _ _ _ run)
  | powerOff _ ih => exact ih.powerOff
  | mount _ ordered isKnown run ih => exact ih.mount ordered isKnown run

theorem keeps_reclaimWhere {inside : Nat → Prop} {earlier : FtlRam} {before : UbiStore D}
    (blocks : PmtBlocks l inside) (fits : l.Fits) :
    KeepsPmt l inside earlier before (reclaimWhere l condition fuel) := by
  intro ram store kept
  rw [reclaimWhere, Code.spec_bind]
  refine spec_pmtFindLoop kept (fun _ kept => ⟨ram, kept⟩) fun i after first last kept' => ?_
  have keeps : KeepsPmt l inside earlier before (do
      let ram ← get
      Code.assert (condition i ram = true)
      pmtReclaimBlock l i : FtlCode D Status) :=
    .bind .get fun _ => .bind (.assert _) fun _ => keeps_pmtReclaimBlock blocks fits first last
  exact keeps ram after kept'

theorem good_targetIsFree (fit : l.NodesFit) :
    GoodReclaim (D := D) l False (reclaimWhere l (targetIsFree l) fuel) :=
  ⟨reclaims_targetIsFree fit, fun _ _ => keeps_reclaimWhere (pmtBlocks_behind l) fit.toFits⟩

theorem good_victimIsFree (fit : l.NodesFit) :
    GoodReclaim (D := D) l True (reclaimWhere l (victimIsFree l) fuel) :=
  ⟨reclaims_victimIsFree fit, fun _ _ => keeps_reclaimWhere (pmtBlocks_behind l) fit.toFits⟩

end Conditions

end OpenNfm.Ftl
