import OpenNfm.Ftl.Data
import OpenNfm.Program.EveryAnswer

/-!
# Writes that wait

The FTL writes its tables, and the pages that it moves, so that `UBI_Write` waits until they
are programmed.  The page of the host is the only one that is written without waiting.
-/

namespace OpenNfm.Ftl

open OpenNfm.Program

/-- The calls on the way of a read or write of the host, apart from the one that writes its
page. -/
def UbiOp.waits {D : Type} : UbiOp D → Bool
  | .read _ _ => true
  | .write _ _ _ _ async => !async
  | .erase _ _ => true
  | .flush => true
  | .readStatus _ => true
  | .format => false
  | .init => false
  | .swl => false

/-- All page writes wait. -/
abbrev Waits {D α : Type} (code : FtlCode D α) : Prop :=
  Code.Only (fun op => op.waits = true) code

section Waits

variable {l : Layout} {fuel : Nat} {D α : Type}

theorem waits_onSuccess {ret : Status} {rest : FtlCode D Status} (waits : Waits rest) :
    Waits (onSuccess ret rest) :=
  .ite waits (.pure _)

theorem waits_ubiRead {block page : Nat} : Waits (ubiRead block page : FtlCode D _) :=
  .perform rfl

theorem waits_ubiWrite {block page : Nat} {main : FtlPage D} {spare : Option Spare} :
    Waits (ubiWrite block page main spare false) :=
  .perform rfl

theorem waits_ubiErase {block dieIndex : Nat} :
    Waits (ubiErase block dieIndex : FtlCode D Status) :=
  .perform rfl

theorem waits_ubiFlush : Waits (ubiFlush : FtlCode D Status) :=
  .perform rfl

theorem waits_ubiReadStatus {block : Nat} : Waits (ubiReadStatus block : FtlCode D Status) :=
  .perform rfl

/-- A page that is read into memory as a table. -/
theorem waits_loads {page : FtlPage D} :
    Waits (loadRoot page) ∧ Waits (loadDirtyCounts page) ∧ Waits (loadHotHash page) ∧
      Waits (loadNode page) ∧ Waits (loadClusters page) ∧ Waits (loadSpares page) := by
  cases page <;> exact ⟨fun _ => trivial, fun _ => trivial, fun _ => trivial, fun _ => trivial,
    fun _ => trivial, fun _ => trivial⟩

/-! ## Logs -/

theorem waits_turnLog {block page : Nat} {setCursor : Nat → Nat → FtlRam → FtlRam} :
    Waits (turnLog l block page setCursor : FtlCode D Status) :=
  .ite (.bind waits_ubiErase fun _ => waits_onSuccess (.bind .modifies fun _ => .pure _)) (.pure _)

theorem waits_rootCommit : Waits (rootCommit l : FtlCode D Status) :=
  .bind .get fun _ => .bind waits_turnLog fun _ => waits_onSuccess <| .bind .modifies fun _ =>
    .bind .get fun _ => .bind waits_ubiWrite fun _ => waits_onSuccess <| .bind .modifies fun _ =>
      .pure _

theorem waits_rootRead {block page : Nat} : Waits (rootRead block page : FtlCode D _) :=
  .bind waits_ubiRead fun _ => .bind waits_loads.1 fun _ => .bind .modifies fun _ => .pure _

theorem waits_rootScan {block rounds page : Nat} :
    Waits (rootScan block rounds page : FtlCode D _) := by
  induction rounds generalizing page with
  | zero => exact .pure _
  | succ rounds ih => exact .bind waits_rootRead fun _ => .ite (.pure _) ih

theorem waits_rootChoose : Waits (rootChoose : FtlCode D Unit) :=
  .bind waits_rootRead fun _ => .ite (.bind .modifies fun _ => .bind waits_rootRead fun _ =>
    .ite .modifies .modifies) .modifies

theorem waits_rootInit : Waits (rootInit l : FtlCode D Status) :=
  .bind waits_rootChoose fun _ => .bind .get fun _ => .bind waits_rootScan fun _ =>
    .bind .assert fun _ => .bind waits_rootRead fun _ => waits_onSuccess <| .bind .modifies fun _ =>
      .bind waits_rootCommit fun _ => .pure _

theorem waits_bdtWrite {rounds i : Nat} : Waits (bdtWrite l rounds i : FtlCode D Status) := by
  induction rounds generalizing i with
  | zero => exact .pure _
  | succ rounds ih => exact .bind .get fun _ => .bind waits_ubiWrite fun _ => waits_onSuccess ih

theorem waits_bdtCommit : Waits (bdtCommit l : FtlCode D Status) :=
  .bind .get fun _ => .bind waits_turnLog fun _ => waits_onSuccess <| .bind waits_bdtWrite fun _ =>
    waits_onSuccess <| .bind .modifies fun _ => .pure _

theorem waits_bdtRead {rounds i : Nat} : Waits (bdtRead l rounds i : FtlCode D Unit) := by
  induction rounds generalizing i with
  | zero => exact .pure _
  | succ rounds ih =>
      exact .bind .get fun _ => .bind waits_ubiRead fun _ => .bind waits_loads.2.1 fun _ =>
        .bind .modifies fun _ => .bind .assert fun _ => ih

theorem waits_firstErased {block step rounds page : Nat} :
    Waits (firstErased l block step rounds page : FtlCode D Nat) := by
  induction rounds generalizing page with
  | zero => exact .pure _
  | succ rounds ih => exact .ite (.bind waits_ubiRead fun _ => .ite ih (.pure _)) (.pure _)

theorem waits_bdtInit : Waits (bdtInit l : FtlCode D Status) :=
  .bind .modifies fun _ => .bind waits_bdtRead fun _ => .bind .get fun _ =>
    .bind waits_firstErased fun _ => .ite
      (.bind .modifies fun _ => .bind waits_bdtCommit fun _ => .pure _)
      (.bind waits_bdtCommit fun _ => .pure _)

theorem waits_hdiCommit : Waits (hdiCommit l : FtlCode D Status) :=
  .bind .get fun _ => .bind waits_turnLog fun _ => waits_onSuccess <| .bind .get fun _ =>
    .bind waits_ubiWrite fun _ => waits_onSuccess <| .bind .modifies fun _ => .pure _

theorem waits_hdiInit : Waits (hdiInit l : FtlCode D Status) :=
  .bind .modifies fun _ => .bind .get fun _ => .bind waits_ubiRead fun _ =>
    .bind waits_loads.2.2.1 fun _ => .bind .modifies fun _ => .bind .assert fun _ =>
      .bind waits_firstErased fun _ => .bind .modifies fun _ =>
        .bind waits_bdtCommit fun _ => .pure _

/-! ## The page mapping table -/

theorem waits_rootNode {cluster : Nat} : Waits (rootNode l cluster : FtlCode D Nat) :=
  .bind .get fun _ => .ite (.pure _) (.halt _)

theorem waits_addDirty {block : Nat} : Waits (addDirty l block : FtlCode D Unit) :=
  .bind .modifies fun _ => .bind .get fun _ => .assert

theorem waits_pmtInit : Waits (pmtInit l : FtlCode D Status) :=
  .bind .modifies fun _ => .pure _

theorem waits_pmtFindDirty {target nextCount : Nat} {blocks : List Nat} :
    Waits (pmtFindDirty target blocks nextCount : FtlCode D _) := by
  induction blocks generalizing nextCount with
  | nil => exact .pure _
  | cons i rest ih =>
      exact .bind .get fun _ => .ite (.bind waits_ubiReadStatus fun _ => .ite (.pure _) ih) ih

theorem waits_pmtFindLoop {rounds target nextCount : Nat} :
    Waits (pmtFindLoop l rounds target nextCount : FtlCode D Nat) := by
  induction rounds generalizing target nextCount with
  | zero => exact .halt _
  | succ rounds ih =>
      refine .bind waits_pmtFindDirty ?_
      rintro ⟨found, nextCount⟩
      cases found with
      | some i => exact .pure _
      | none => exact ih

theorem waits_pmtValidNode {cluster : Nat} : Waits (pmtValidNode l cluster : FtlCode D _) := by
  refine .bind waits_rootNode fun node => .ite (.ite (.pure _) (.bind .get fun ram => ?_)) (.pure _)
  cases slotOfCluster l ram cluster with
  | some i => exact .pure _
  | none => exact .halt _

theorem waits_pmtCopyPage {cluster dirtyBlock page reclaimBlock reclaimPage : Nat}
    {cleared : Option Nat} :
    Waits (pmtCopyPage l cluster dirtyBlock page reclaimBlock reclaimPage cleared :
      FtlCode D Status) :=
  .bind waits_ubiRead fun _ => waits_onSuccess <| .bind waits_ubiWrite fun _ => waits_onSuccess <|
    .bind .modifies fun _ => .pure _

theorem waits_pmtCopyPages {clusters : Nat → Nat} {dirtyBlock reclaimBlock : Nat}
    {rounds page reclaimPage : Nat} {ret : Status} :
    Waits (pmtCopyPages l clusters dirtyBlock reclaimBlock rounds page reclaimPage ret :
      FtlCode D _) := by
  induction rounds generalizing page reclaimPage ret with
  | zero => exact .pure _
  | succ rounds ih =>
      exact .bind waits_pmtValidNode fun _ => .ite (.bind waits_pmtCopyPage fun _ => ih) ih

theorem waits_pmtReclaimBlocks : Waits (pmtReclaimBlocks l fuel : FtlCode D Status) := by
  have copies : ∀ dirtyBlock reclaimBlock, Waits (pmtCopyBlock l dirtyBlock reclaimBlock :
      FtlCode D _) := fun _ _ =>
    .bind waits_ubiRead fun _ => .ite (.bind waits_loads.2.2.2.2.1 fun _ => waits_pmtCopyPages)
      (.pure _)
  have erases : ∀ block change, Waits (pmtErase block change : FtlCode D Status) := fun _ _ =>
    .bind waits_ubiErase fun _ => waits_onSuccess <| .bind .modifies fun _ => .pure _
  exact .bind waits_pmtFindLoop fun _ => .bind .get fun _ =>
    .ite (.bind (copies _ _) fun _ => waits_onSuccess (erases _ _)) (erases _ _)

theorem waits_pmtCommitSlots {reclaim : FtlCode D Status} (waits : Waits reclaim) {rounds i : Nat}
    {ret : Status} : Waits (pmtCommitSlots l reclaim rounds i ret) := by
  have stores : ∀ i, Waits (pmtStoreNode l i : FtlCode D Status) := fun _ =>
    .bind .get fun _ => .bind waits_ubiWrite fun _ => waits_onSuccess <| .bind .modifies fun _ =>
      .bind waits_addDirty fun _ => .pure _
  have writes : ∀ i ret, Waits (pmtWriteSlot l i ret : FtlCode D Status) := fun _ _ =>
    .bind .get fun _ => .ite (.bind .assert fun _ => waits_onSuccess (stores _)) (.pure _)
  have turns : ∀ ret, Waits (pmtNextBlock l reclaim ret) := fun _ =>
    .bind .get fun _ => .ite (waits_onSuccess <| .bind .get fun _ => .bind waits_ubiWrite fun _ =>
      .bind (waits_onSuccess waits_ubiFlush) fun _ => waits_onSuccess waits) (.pure _)
  induction rounds generalizing i ret with
  | zero => exact .pure _
  | succ rounds ih =>
      exact .bind .get fun _ => .ite ih <| .bind .assert fun _ =>
        .ite (.bind .modifies fun _ => ih) (.bind (writes _ _) fun _ => .bind (turns _) fun _ => ih)

theorem waits_dataCommit {reclaim : FtlCode D Status} (waits : Waits reclaim) :
    Waits (dataCommit l reclaim) :=
  .bind waits_hdiCommit fun _ => .bind
    (waits_onSuccess <| .bind (waits_pmtCommitSlots waits) fun _ =>
      waits_onSuccess waits_pmtInit) fun _ =>
    .bind (waits_onSuccess waits_bdtCommit) fun _ =>
      .bind (waits_onSuccess waits_rootCommit) fun _ =>
        waits_onSuccess <| .bind .modifies fun _ => .pure _

theorem waits_pmtCached {reclaim : FtlCode D Status} (waits : Waits reclaim) {cluster : Nat} :
    Waits (pmtCached l reclaim cluster) := by
  have room : ∀ block page, Waits (pmtMakeRoom l reclaim block page cluster) := by
    intro block page
    refine .bind .get fun ram => ?_
    cases freeSlot l ram with
    | some i => exact .pure _
    | none =>
        exact .bind (waits_dataCommit waits) fun _ => .bind .get fun _ => .ite (.pure _) (.pure _)
  have fills : ∀ i block page, Waits (pmtFill l i block page cluster : FtlCode D Status) :=
    fun _ _ _ => .bind waits_ubiRead fun _ => .bind waits_loads.2.2.2.1 fun _ =>
      .bind .modifies fun _ => waits_onSuccess <| .bind .modifies fun _ =>
        .bind .assert fun _ => .pure _
  exact .bind waits_rootNode fun _ =>
    .ite (.bind (room _ _) fun _ => waits_onSuccess (fills _ _ _)) (.pure _)

theorem waits_pmtSlot {cluster : Nat} : Waits (pmtSlot l cluster : FtlCode D Nat) := by
  refine .bind waits_rootNode fun node => ?_
  cases slotAt l (PmNode.address node) with
  | some i => exact .pure _
  | none => exact .halt _

theorem waits_pmtUpdate {reclaim : FtlCode D Status} (waits : Waits reclaim)
    {pageAddr block page : Nat} : Waits (pmtUpdate l reclaim pageAddr block page) :=
  .bind (waits_pmtCached waits) fun _ => waits_onSuccess <| .bind waits_pmtSlot fun _ =>
    .bind (.bind .get fun _ => .ite waits_addDirty (.pure _)) fun _ =>
      .bind (.ite (.bind .assert fun _ => .pure _) (.bind .assert fun _ => .pure _)) fun _ =>
        .bind .modifies fun _ => .pure _

theorem waits_pmtSearch {reclaim : FtlCode D Status} (waits : Waits reclaim) {pageAddr : Nat} :
    Waits (pmtSearch l reclaim pageAddr) :=
  .bind (waits_pmtCached waits) fun _ => .ite (.bind waits_rootNode fun _ => .bind .assert fun _ =>
    .bind .assert fun _ => .bind waits_pmtSlot fun _ => .bind .get fun _ =>
      .ite (.pure _) (.pure _)) (.pure _)

/-! ## The data journals -/

theorem waits_dataFindLoop {hot : Bool} {rounds : Nat} {ret : Status} :
    Waits (dataFindLoop l hot rounds ret : FtlCode D _) := by
  have ready : ∀ journals j ret, Waits (dataFindReady l hot journals j ret : FtlCode D _) := by
    intro journals
    induction journals with
    | zero => exact fun _ _ => .pure _
    | succ journals ih =>
        exact fun _ _ => .bind .get fun _ => .ite
          (.bind waits_ubiReadStatus fun _ => .ite (.pure _) (ih _ _)) (ih _ _)
  induction rounds generalizing ret with
  | zero => exact .halt _
  | succ rounds ih => exact .bind (ready _ _ _) fun _ => .ite ih (.pure _)

theorem waits_dataWriteMeta {hot : Bool} {j block : Nat} :
    Waits (dataWriteMeta l hot j block : FtlCode D Status) :=
  .bind .get fun _ => waits_ubiWrite

theorem waits_dataAppended {hot : Bool} {j addr block page : Nat} {ret : Status} :
    Waits (dataAppended l fuel hot j addr block page ret : FtlCode D Status) :=
  .bind (waits_onSuccess (waits_pmtUpdate waits_pmtReclaimBlocks)) fun _ =>
    .bind (waits_onSuccess <| .bind .modifies fun _ => .pure _) fun _ =>
      .bind .get fun _ => .ite waits_dataWriteMeta (.pure _)

theorem waits_dataFindDirtyLoop {hot : Bool} {rounds target : Nat} {found : List Nat × Nat} :
    Waits (dataFindDirtyLoop l hot rounds target found : FtlCode D _) := by
  induction rounds generalizing target found with
  | zero => exact .halt _
  | succ rounds ih => exact .ite (.pure _) (.bind .get fun _ => ih)

theorem waits_dataCopyPages {hot : Bool} {j dirtyBlock reclaimBlock : Nat} {pages : Nat → Spare}
    {rounds page reclaimPage total : Nat} {ret : Status} :
    Waits (dataCopyPages l fuel hot j dirtyBlock reclaimBlock pages rounds page reclaimPage total
      ret : FtlCode D _) := by
  have copies : ∀ page reclaimPage total addr, Waits (dataCopyPage l fuel hot j dirtyBlock page
      reclaimBlock reclaimPage total addr : FtlCode D Status) := fun _ _ _ _ =>
    .bind waits_ubiRead fun _ => .bind (waits_onSuccess waits_ubiWrite) fun _ =>
      waits_onSuccess <| .bind (waits_pmtUpdate waits_pmtReclaimBlocks) fun _ =>
        .bind .assert fun _ => .bind .modifies fun _ =>
          waits_onSuccess <| .bind .modifies fun _ => .pure _
  induction rounds generalizing page reclaimPage total ret with
  | zero => exact .pure _
  | succ rounds ih =>
      exact .ite ih <| .bind (waits_pmtSearch waits_pmtReclaimBlocks) fun _ =>
        .ite (.bind (copies _ _ _ _) fun _ => ih) ih

theorem waits_dataCopyBlocks {hot : Bool} {blocks : List Nat} {j total : Nat} {ret : Status} :
    Waits (dataCopyBlocks l fuel hot blocks j total ret : FtlCode D _) := by
  induction blocks generalizing j total ret with
  | nil => exact .pure _
  | cons block rest ih =>
      exact .bind (.bind .get fun _ => .bind waits_ubiRead fun _ =>
        .ite (.bind waits_loads.2.2.2.2.2 fun _ => waits_dataCopyPages) (.pure _)) fun _ => ih

theorem waits_dataSwitchJournals {change : Nat → Nat → FtlRam → FtlRam} {blocks : List Nat}
    {j : Nat} {ret : Status} :
    Waits (dataSwitchJournals change blocks j ret : FtlCode D Status) := by
  induction blocks generalizing j ret with
  | nil => exact .pure _
  | cons block rest ih =>
      exact .bind (waits_onSuccess waits_ubiErase) fun _ =>
        .bind (waits_onSuccess <| .bind .modifies fun _ => .pure _) fun _ => ih

theorem waits_reclaimIfFull {hot : Bool} {ret : Status} :
    Waits (reclaimIfFull l fuel hot ret : FtlCode D Status) := by
  have moves : ∀ blocks valid, Waits (dataMoveBlocks l fuel hot blocks valid : FtlCode D Status) :=
    fun _ _ => .ite (.bind waits_dataCopyBlocks fun _ => .bind .assert fun _ =>
      waits_dataSwitchJournals) waits_dataSwitchJournals
  have reclaims : Waits (dataReclaim l fuel hot : FtlCode D Status) :=
    .bind waits_ubiFlush fun _ => waits_onSuccess <| .bind waits_dataFindDirtyLoop fun _ =>
      .bind (moves _ _) fun _ => waits_onSuccess <| .bind .modifies fun _ => .pure _
  exact .bind .get fun _ => .ite (.bind reclaims fun _ =>
    waits_onSuccess (waits_dataCommit waits_pmtReclaimBlocks)) (.pure _)

theorem waits_hdiIsHotPage {addr : Nat} : Waits (hdiIsHotPage l addr : FtlCode D Bool) :=
  .bind .get fun _ => .ite (.bind .modifies fun _ => .pure _) (.bind .modifies fun _ => .pure _)

/-! ### Replay -/

theorem waits_readSpare {ret : Status} {block page : Nat} :
    Waits (readSpare ret block page : FtlCode D _) :=
  .ite (.bind waits_ubiRead fun _ => .pure _) (.pure _)

theorem waits_dataReplayPass {hot : Bool} {rounds j wanted : Nat} {ret : Status} :
    Waits (dataReplayPass l fuel hot rounds j wanted ret : FtlCode D _) := by
  induction rounds generalizing j wanted ret with
  | zero => exact .pure _
  | succ rounds ih =>
      exact .bind .get fun _ => .bind waits_readSpare fun _ => .ite ih <|
        .bind (waits_onSuccess (waits_pmtUpdate waits_pmtReclaimBlocks)) fun _ =>
          .ite (.bind .modifies fun _ => .pure _) (.bind .modifies fun _ => ih)

theorem waits_dataBuildMeta {hot : Bool} {j block rounds page : Nat} {ret : Status} :
    Waits (dataBuildMeta l hot j block rounds page ret : FtlCode D Status) := by
  induction rounds generalizing page ret with
  | zero => exact .pure _
  | succ rounds ih =>
      exact .bind waits_readSpare fun _ => .ite (.bind .modifies fun _ => ih)
        (.ite (.bind waits_dataWriteMeta fun _ => ih) (.pure _))

theorem waits_dataReplay {hot : Bool} : Waits (dataReplay l fuel hot : FtlCode D Status) := by
  have loop : ∀ rounds wanted ret,
      Waits (dataReplayLoop l fuel hot rounds wanted ret : FtlCode D Status) := by
    intro rounds
    induction rounds with
    | zero => exact fun _ _ => .halt _
    | succ rounds ih =>
        exact fun _ _ => .ite (.bind waits_dataReplayPass fun _ => ih _ _) (.pure _)
  have metas : ∀ rounds j ret, Waits (dataBuildMetas l hot rounds j ret : FtlCode D Status) := by
    intro rounds
    induction rounds with
    | zero => exact fun _ _ => .pure _
    | succ rounds ih =>
        exact fun _ _ => .bind .get fun _ => .bind waits_dataBuildMeta fun _ => ih _ _
  exact .bind (loop _ _ _) fun _ => metas _ _ _

/-! ## The functions of the FTL -/

theorem waits_ftlRead {addr : Nat} : Waits (ftlRead l fuel addr : FtlCode D _) :=
  .bind (waits_pmtSearch waits_pmtReclaimBlocks) fun _ =>
    .ite (.bind waits_ubiRead fun _ => .pure _) (.pure _)

/-- What a mount does behind the mount of the UBI layer. -/
theorem waits_ftlInit {ret : Status} : Waits (do
    let ret ← onSuccess ret (ftlInitTables l)
    let ret ← onSuccess ret (dataReplay l fuel true)
    let ret ← onSuccess ret (dataReplay l fuel false)
    onSuccess ret do
      let ret ← reclaimIfFull l fuel true ret
      reclaimIfFull l fuel false ret : FtlCode D Status) :=
  .bind (waits_onSuccess <| .bind waits_rootInit fun _ =>
    .bind (waits_onSuccess waits_bdtInit) fun _ =>
      .bind (waits_onSuccess waits_pmtInit) fun _ => waits_onSuccess waits_hdiInit) fun _ =>
    .bind (waits_onSuccess waits_dataReplay) fun _ =>
      .bind (waits_onSuccess waits_dataReplay) fun _ =>
        waits_onSuccess <| .bind waits_reclaimIfFull fun _ => waits_reclaimIfFull

end Waits

end OpenNfm.Ftl
