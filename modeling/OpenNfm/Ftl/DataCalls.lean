import OpenNfm.Ftl.NodeRuns

/-!
# The data pages over any reclaim of the page mapping table

The functions of `ftl_data.c` and `ftl_api.c` once more, with the code that reclaims a block
of the page mapping table as an argument.  With `pmtReclaimBlocks` they are the functions of
the source, and with assertions in it they return only what the functions of the source do.
-/

namespace OpenNfm.Ftl

open OpenNfm.Program

section Calls

variable (l : Layout) {D : Type} (reclaim : FtlCode D Status) (fuel : Nat)

/-! ## Write -/

/-- `dataAppended` over any reclaim. -/
def dataAppendedWith (hot : Bool) (j addr block page : Nat) (ret : Status) : FtlCode D Status := do
  let ret ← onSuccess ret (pmtUpdate l reclaim addr block page)
  let ret ← onSuccess ret do
    modify (setJournal hot j (PmNode.setBlockPage l.g block (page + 1)))
    pure ret
  let ram ← get
  if PmNode.page l.g (journal hot ram j) = l.pagePerPhyBlock - 1 then dataWriteMeta l hot j block
  else pure ret

/-- `dataAppend` over any reclaim. -/
def dataAppendWith (hot : Bool) (j addr : Nat) (content : D) : FtlCode D Status := do
  let ram ← get
  let block := PmNode.block l.g (journal hot ram j)
  let page := PmNode.page l.g (journal hot ram j)
  modify (numberPage l hot j addr)
  let ret ← ubiWrite block page (.data content) (some ⟨addr, edition hot ram⟩) true
  dataAppendedWith l reclaim hot j addr block page ret

/-- `DATA_Write` over any reclaim. -/
def dataWriteWith (addr : Nat) (buffer : Option D) (hot : Bool) : FtlCode D Status := do
  let (j, ret) ← dataFindLoop l hot fuel .success
  Code.assert (ret = .success)
  match buffer with
  | some content => dataAppendWith l reclaim hot j addr content
  | none => pmtUpdate l reclaim addr invalidBlock invalidPage

/-! ## Reclaim -/

/-- `dataCopyPage` over any reclaim. -/
def dataCopyPageWith (hot : Bool) (j dirtyBlock page reclaimBlock reclaimPage total addr : Nat) :
    FtlCode D Status := do
  let answer ← ubiRead dirtyBlock page
  -- logical page address is not changed
  let spare : Spare := ⟨answer.spare.first, total⟩
  let ret ← onSuccess answer.status
    (ubiWrite reclaimBlock reclaimPage answer.main (some spare) false)
  onSuccess ret do
    let ret ← pmtUpdate l reclaim addr reclaimBlock reclaimPage
    Code.assert (spare.first = addr)
    modify (setJournalMeta hot j reclaimPage spare)
    onSuccess ret do
      modify (setReclaimJournal j (PmNode.setBlockPage l.g reclaimBlock (reclaimPage + 1)))
      pure ret

/-- `dataCopyPages` over any reclaim. -/
def dataCopyPagesWith (hot : Bool) (j dirtyBlock reclaimBlock : Nat) (pages : Nat → Spare) :
    Nat → Nat → Nat → Nat → Status → FtlCode D (Nat × Status)
  | 0, _, _, total, ret => pure (total, ret)
  | rounds + 1, page, reclaimPage, total, ret =>
      if ret ≠ .success then
        dataCopyPagesWith hot j dirtyBlock reclaimBlock pages rounds
          (page + 1) reclaimPage total ret
      else do
        let (ret, trueBlock, truePage) ← pmtSearch l reclaim (pages page).first
        if ret = .success ∧ trueBlock = dirtyBlock ∧ truePage = page then do
          let ret ← dataCopyPageWith l reclaim hot j dirtyBlock page reclaimBlock reclaimPage total
            (pages page).first
          let copies := if ret = .success then 1 else 0
          dataCopyPagesWith hot j dirtyBlock reclaimBlock pages rounds (page + 1)
            (reclaimPage + copies) (total + copies) ret
        else
          dataCopyPagesWith hot j dirtyBlock reclaimBlock pages rounds (page + 1) reclaimPage total
            ret

/-- `dataCopyBlock` over any reclaim. -/
def dataCopyBlockWith (hot : Bool) (j dirtyBlock total : Nat) : FtlCode D (Nat × Status) := do
  let ram ← get
  let answer ← ubiRead dirtyBlock (l.pagePerPhyBlock - 1)
  if answer.status = .success then do
    let pages ← loadSpares answer.main
    dataCopyPagesWith l reclaim hot j dirtyBlock
      (PmNode.block l.g (ram.rootTable.reclaimJournal j)) pages (l.pagePerPhyBlock - 1) 0 0 total
      .success
  else pure (total, answer.status)

/-- `dataCopyBlocks` over any reclaim. -/
def dataCopyBlocksWith (hot : Bool) : List Nat → Nat → Nat → Status → FtlCode D (Nat × Status)
  | [], _, total, ret => pure (total, ret)
  | dirtyBlock :: rest, j, total, _ => do
      let (total, ret) ← dataCopyBlockWith l reclaim hot j dirtyBlock total
      dataCopyBlocksWith hot rest (j + 1) total ret

/-- `dataMoveBlocks` over any reclaim. -/
def dataMoveBlocksWith (hot : Bool) (blocks : List Nat) (valid : Nat) : FtlCode D Status :=
  if valid ≠ 0 then do
    let (total, ret) ← dataCopyBlocksWith l reclaim hot blocks 0 0 .success
    Code.assert (valid = total)
    dataSwitchJournals (switchJournal l hot) blocks 0 ret
  else dataSwitchJournals (restartJournal l hot) blocks 0 .success

/-- `DATA_Reclaim` over any reclaim of the mapping. -/
def dataReclaimWith (hot : Bool) : FtlCode D Status := do
  let ret ← ubiFlush
  onSuccess ret do
    let (blocks, valid) ← dataFindDirtyLoop l hot fuel l.maxDirtyPages ([], 0)
    let ret ← dataMoveBlocksWith l reclaim hot blocks valid
    onSuccess ret do
      modify (setEdition hot valid)
      pure ret

/-! ## The functions of the FTL -/

/-- `reclaimIfFull` over any reclaim. -/
def reclaimIfFullWith (hot : Bool) (ret : Status) : FtlCode D Status := do
  let ram ← get
  if dataIsFull l hot ram then do
    let ret ← dataReclaimWith l reclaim fuel hot
    onSuccess ret (dataCommit l reclaim)
  else pure ret

/-- `FTL_Write` over any reclaim. -/
def ftlWriteWith (addr : Nat) (buffer : Option D) : FtlCode D Status := do
  let hot ← hdiIsHotPage l addr
  let ret ← dataWriteWith l reclaim fuel addr buffer hot
  onSuccess ret (reclaimIfFullWith l reclaim fuel hot ret)

/-- `UBI_Read` into the buffer of a page.  A page that is nowhere is read as zeros. -/
def ubiReadPage (zero : D) (block page : Nat) : FtlCode D (Status × FtlPage D) :=
  if block ≠ invalidBlock ∧ page ≠ invalidPage then do
    let answer ← ubiRead block page
    pure (answer.status, answer.main)
  else do
    Code.assert (block = invalidBlock ∧ page = invalidPage)
    -- read from invalid page, fill the empty buffer all ZERO
    pure (.success, .data zero)

/-- `FTL_Read` with the zeros of a page that is trimmed or was never written. -/
def ftlReadWith (zero : D) (addr : Nat) : FtlCode D (Status × FtlPage D) := do
  let (ret, block, page) ← pmtSearch l reclaim addr
  if ret = .success then ubiReadPage zero block page else pure (ret, .ones)

/-- `FTL_Trim` of so many pages. -/
def ftlTrimWith : Nat → Nat → FtlCode D Status
  | 0, _ => pure .success
  | count + 1, addr => do
      let ret ← ftlWriteWith l reclaim fuel addr none
      onSuccess ret (ftlTrimWith count (addr + 1))

/-- `FTL_Flush` over any reclaim. -/
def ftlFlushWith : FtlCode D Status := do
  let ret ← dataCommit l reclaim
  let ret ← onSuccess ret ubiFlush
  onSuccess ret ubiSwl

end Calls

/-! ## With the reclaim of the source -/

section Source

variable {l : Layout} {D : Type} {fuel : Nat}

theorem dataWriteWith_source (addr : Nat) (buffer : Option D) (hot : Bool) :
    dataWriteWith l (pmtReclaimBlocks l fuel) fuel addr buffer hot =
      dataWrite l fuel addr buffer hot :=
  rfl

theorem dataCopyPagesWith_source (hot : Bool) (j dirtyBlock reclaimBlock : Nat)
    (pages : Nat → Spare) (rounds page reclaimPage total : Nat) (ret : Status) :
    (dataCopyPagesWith l (pmtReclaimBlocks l fuel) hot j dirtyBlock reclaimBlock pages rounds page
        reclaimPage total ret : FtlCode D _) =
      dataCopyPages l fuel hot j dirtyBlock reclaimBlock pages rounds page reclaimPage
        total ret := by
  induction rounds generalizing page reclaimPage total ret with
  | zero => rfl
  | succ rounds ih =>
      simp only [dataCopyPagesWith, dataCopyPages, ih]
      rfl

theorem dataCopyBlocksWith_source (hot : Bool) (blocks : List Nat) (j total : Nat) (ret : Status) :
    (dataCopyBlocksWith l (pmtReclaimBlocks l fuel) hot blocks j total ret : FtlCode D _) =
      dataCopyBlocks l fuel hot blocks j total ret := by
  induction blocks generalizing j total ret with
  | nil => rfl
  | cons dirtyBlock rest ih =>
      simp only [dataCopyBlocksWith, dataCopyBlocks, dataCopyBlockWith, dataCopyBlock,
        dataCopyPagesWith_source, ih]

theorem dataReclaimWith_source (hot : Bool) :
    (dataReclaimWith l (pmtReclaimBlocks l fuel) fuel hot : FtlCode D _) =
      dataReclaim l fuel hot := by
  simp only [dataReclaimWith, dataReclaim, dataMoveBlocksWith, dataMoveBlocks,
    dataCopyBlocksWith_source]

theorem ftlWriteWith_source (addr : Nat) (buffer : Option D) :
    ftlWriteWith l (pmtReclaimBlocks l fuel) fuel addr buffer = ftlWrite l fuel addr buffer := by
  simp only [ftlWriteWith, ftlWrite, dataWriteWith_source, reclaimIfFullWith, reclaimIfFull,
    dataReclaimWith_source]

theorem ftlTrimWith_source (count addr : Nat) :
    (ftlTrimWith l (pmtReclaimBlocks l fuel) fuel count addr : FtlCode D _) =
      ftlTrim l fuel count addr := by
  induction count generalizing addr with
  | zero => rfl
  | succ count ih => simp only [ftlTrimWith, ftlTrim, ftlWriteWith_source, ih]

end Source

/-! ## With assertions in the reclaim -/

section Agreement

variable {l : Layout} {D E : Type} {machine : Machine (UbiOp D) (UbiAns D) E} {fuel : Nat}
  {reclaim reclaim' : FtlCode D Status}

theorem agrees_dataWriteWith {addr : Nat} {buffer : Option D} {hot : Bool}
    (agrees : Code.Agrees machine reclaim reclaim') :
    Code.Agrees machine (dataWriteWith l reclaim fuel addr buffer hot)
      (dataWriteWith l reclaim' fuel addr buffer hot) := by
  apply Code.Agrees.after
  rintro ⟨j, ret⟩
  apply Code.Agrees.after
  intro _
  cases buffer with
  | none => exact agrees_pmtUpdate agrees
  | some content =>
      refine .after _ fun ram => .after _ fun _ => .after _ fun ret => ?_
      exact .bind (agrees_onSuccess (agrees_pmtUpdate agrees)) fun _ => .refl _

theorem agrees_dataCopyPageWith {hot : Bool}
    {j dirtyBlock page reclaimBlock reclaimPage total addr : Nat}
    (agrees : Code.Agrees machine reclaim reclaim') :
    Code.Agrees machine
      (dataCopyPageWith l reclaim hot j dirtyBlock page reclaimBlock reclaimPage total addr)
      (dataCopyPageWith l reclaim' hot j dirtyBlock page reclaimBlock reclaimPage total addr) := by
  refine .after _ fun answer => .after _ fun ret => agrees_onSuccess ?_
  exact .bind (agrees_pmtUpdate agrees) fun _ => .refl _

theorem agrees_dataCopyPagesWith {hot : Bool} {pages : Nat → Spare} {ret : Status}
    {j dirtyBlock reclaimBlock rounds page reclaimPage total : Nat}
    (agrees : Code.Agrees machine reclaim reclaim') :
    Code.Agrees machine
      (dataCopyPagesWith l reclaim hot j dirtyBlock reclaimBlock pages rounds page reclaimPage total
        ret)
      (dataCopyPagesWith l reclaim' hot j dirtyBlock reclaimBlock pages rounds page
        reclaimPage total ret) := by
  induction rounds generalizing page reclaimPage total ret with
  | zero => exact .refl _
  | succ rounds ih =>
      simp only [dataCopyPagesWith]
      split
      · exact ih
      · apply Code.Agrees.bind (agrees_pmtSearch agrees)
        rintro ⟨ret, trueBlock, truePage⟩
        dsimp only
        split
        · exact .bind (agrees_dataCopyPageWith agrees) fun _ => ih
        · exact ih

theorem agrees_dataCopyBlocksWith {hot : Bool} {blocks : List Nat} {j total : Nat} {ret : Status}
    (agrees : Code.Agrees machine reclaim reclaim') :
    Code.Agrees machine (dataCopyBlocksWith l reclaim hot blocks j total ret)
      (dataCopyBlocksWith l reclaim' hot blocks j total ret) := by
  induction blocks generalizing j total ret with
  | nil => exact .refl _
  | cons dirtyBlock rest ih =>
      refine .bind (.after _ fun ram => .after _ fun answer => ?_) fun _ => ih
      split
      · exact .after _ fun pages => agrees_dataCopyPagesWith agrees
      · exact .refl _

theorem agrees_dataReclaimWith {hot : Bool} (agrees : Code.Agrees machine reclaim reclaim') :
    Code.Agrees machine (dataReclaimWith l reclaim fuel hot)
      (dataReclaimWith l reclaim' fuel hot) := by
  refine .after _ fun ret => agrees_onSuccess ?_
  refine .after _ fun found => .bind ?_ fun _ => .refl _
  unfold dataMoveBlocksWith
  split
  · exact .bind (agrees_dataCopyBlocksWith agrees) fun _ => .refl _
  · exact .refl _

theorem agrees_ftlWriteWith {addr : Nat} {buffer : Option D}
    (agrees : Code.Agrees machine reclaim reclaim') :
    Code.Agrees machine (ftlWriteWith l reclaim fuel addr buffer)
      (ftlWriteWith l reclaim' fuel addr buffer) := by
  refine .after _ fun hot => .bind (agrees_dataWriteWith agrees) fun ret => agrees_onSuccess ?_
  refine .after _ fun ram => ?_
  split
  · exact .bind (agrees_dataReclaimWith agrees) fun _ =>
      agrees_onSuccess (agrees_dataCommit agrees)
  · exact .refl _

theorem agrees_ftlTrimWith {count addr : Nat} (agrees : Code.Agrees machine reclaim reclaim') :
    Code.Agrees machine (ftlTrimWith l reclaim fuel count addr)
      (ftlTrimWith l reclaim' fuel count addr) := by
  induction count generalizing addr with
  | zero => exact .refl _
  | succ count ih => exact .bind (agrees_ftlWriteWith agrees) fun _ => agrees_onSuccess ih

theorem agrees_ftlReadWith {zero : D} {addr : Nat} (agrees : Code.Agrees machine reclaim reclaim') :
    Code.Agrees machine (ftlReadWith l reclaim zero addr) (ftlReadWith l reclaim' zero addr) :=
  .bind (agrees_pmtSearch agrees) fun _ => .refl _

theorem agrees_ftlFlushWith (agrees : Code.Agrees machine reclaim reclaim') :
    Code.Agrees machine (ftlFlushWith l reclaim) (ftlFlushWith l reclaim') :=
  .bind (agrees_dataCommit agrees) fun _ => .refl _

end Agreement

end OpenNfm.Ftl
