import OpenNfm.Ftl.LogRecovery
import OpenNfm.Ftl.NodeTable

/-!
# What commits and updates leave alone

`PMT_Update` may load a node, and a full cache then calls for a commit.  All of that stays
in the blocks of the tables, and the journals of the root and the spare areas in memory are
not touched.
-/

namespace OpenNfm.Ftl

open OpenNfm.Program

variable {l : Layout} {D : Type}

/-- The blocks before the data blocks. -/
abbrev InMeta (l : Layout) (block : Nat) : Prop :=
  block < l.dataStartBlock

/-- The variables of the data journals, but for the numbers of the next pages. -/
structure JournalPart where
  hotJournal : Nat → Nat
  coldJournal : Nat → Nat
  reclaimJournal : Nat → Nat
  hotMetaData : Nat → Nat → Spare
  coldMetaData : Nat → Nat → Spare

/-- The variables of the journals. -/
def FtlRam.journalPart (ram : FtlRam) : JournalPart where
  hotJournal := ram.rootTable.hotJournal
  coldJournal := ram.rootTable.coldJournal
  reclaimJournal := ram.rootTable.reclaimJournal
  hotMetaData := ram.hotMetaData
  coldMetaData := ram.coldMetaData

theorem FtlRam.journalPart_journal {ram ram' : FtlRam} (same : ram.journalPart = ram'.journalPart)
    (hot : Bool) : journal hot ram = journal hot ram' := by
  cases hot
  · exact congrArg JournalPart.coldJournal same
  · exact congrArg JournalPart.hotJournal same

/-- The cursors of the tables are in their blocks. -/
structure CursorsInMeta (l : Layout) (ram : FtlRam) : Prop where
  root : InPair 1 ram.rootCurrentBlock
  bdt : InPair 0 ram.bdtCurrentBlock
  hdi : InPair 2 ram.hdiCurrentBlock
  current : IsPmtBlock l (pmtCurrentBlock l ram)
  reclaim : IsPmtBlock l (PmNode.block l.g ram.rootTable.pmtReclaimBlock)

/-- Only tables have been written, and the journals have not moved. -/
structure MetaWithin (l : Layout) (earlier : JournalPart) (before : UbiStore D) (ram : FtlRam)
    (store : UbiStore D) : Prop where
  journals : ram.journalPart = earlier
  store : WithinBlocks (InMeta l) before store
  cursors : CursorsInMeta l ram

theorem inMeta_of_inPair {pair block : Nat} (inPair : InPair pair block) (isTable : pair < 3) :
    InMeta l block := by
  have same : block / 2 = pair := inPair
  unfold InMeta Layout.dataStartBlock Layout.pmtStartBlock
  omega

theorem pmtBlocks_area (fits : l.dataStartBlock ≤ l.capacity) : PmtBlocks l (IsPmtBlock l) where
  table _ first last _ := ⟨first, last⟩
  small _ inside := by
    have := inside.2
    omega

section Keeps

variable {earlier : JournalPart} {before : UbiStore D}

/-- Code of the tables. -/
abbrev KeepsMeta (l : Layout) (earlier : JournalPart) (before : UbiStore D) {α : Type}
    (code : FtlCode D α) : Prop :=
  Code.Keeps (storeMachine l.g l.capacity) (MetaWithin l earlier before) code

theorem MetaWithin.write {ram : FtlRam} {store : UbiStore D} {block page : Nat}
    {content : Page (FtlPage D)} (kept : MetaWithin l earlier before ram store)
    (inMeta : InMeta l block) : MetaWithin l earlier before ram (store.write block page content) :=
  ⟨kept.journals, kept.store.write inMeta content, kept.cursors⟩

theorem MetaWithin.erase {ram : FtlRam} {store : UbiStore D} {block : Nat}
    (kept : MetaWithin l earlier before ram store) (inMeta : InMeta l block) :
    MetaWithin l earlier before ram (store.erase block) :=
  ⟨kept.journals, kept.store.erase inMeta, kept.cursors⟩

theorem keepsMeta_ubiRead (block page : Nat) : KeepsMeta l earlier before (ubiRead block page) :=
  fun ram _ kept => returns_ubiRead ⟨ram, kept⟩ fun _ _ => kept

theorem keepsMeta_ubiWrite {block page : Nat} {main : FtlPage D} {spare : Option Spare}
    {async : Bool} (inMeta : InMeta l block) :
    KeepsMeta l earlier before (ubiWrite block page main spare async) :=
  fun ram _ kept => returns_ubiWrite ⟨ram, kept⟩ fun _ _ _ =>
    ⟨⟨ram, kept.write inMeta⟩, kept.write inMeta⟩

theorem keepsMeta_rootNode (cluster : Nat) : KeepsMeta l earlier before (rootNode l cluster) := by
  unfold rootNode
  refine .bind .get fun ram => ?_
  split
  · exact .pure _
  · exact .halt _

theorem keepsMeta_loadNode (main : FtlPage D) : KeepsMeta l earlier before (loadNode main) := by
  unfold loadNode
  split
  · exact .pure _
  · exact .pure _
  · exact .halt _

/-! ### Commit -/

/-- A full log goes on in the other block of its pair. -/
theorem keepsMeta_turnLog {pair block page : Nat} {setCursor : Nat → Nat → FtlRam → FtlRam}
    (inPair : InPair pair block) (isTable : pair < 3)
    (stable : ∀ ram store, InPair pair (block ^^^ 1) → MetaWithin l earlier before ram store →
      MetaWithin l earlier before (setCursor (block ^^^ 1) 0 ram) store) :
    KeepsMeta l earlier before (turnLog l block page setCursor) := by
  have other : InPair pair (block ^^^ 1) := (pair_div block).trans inPair
  unfold turnLog
  split
  · intro ram store kept
    rw [Code.spec_bind]
    refine returns_ubiErase ⟨ram, kept⟩ fun _ => ?_
    have erased := kept.erase (inMeta_of_inPair other isTable)
    have changed := stable ram _ other erased
    rw [onSuccess_success, Code.spec_bind, Code.spec_modify, Code.spec_pure]
    exact ⟨⟨ram, erased⟩, ⟨ram, erased⟩, ⟨_, changed⟩, changed⟩
  · exact .pure _

/-- A step that knows that the cursors are in their blocks. -/
theorem keepsMeta_get {α : Type} {rest : FtlRam → FtlCode D α}
    (keeps : ∀ ram, CursorsInMeta l ram → KeepsMeta l earlier before (rest ram)) :
    KeepsMeta l earlier before (get >>= rest) := by
  intro ram store kept
  rw [Code.spec_bind, Code.spec_get]
  exact ⟨⟨ram, kept⟩, keeps ram kept.cursors ram store kept⟩

theorem keepsMeta_hdiCommit : KeepsMeta l earlier before (hdiCommit l) := by
  refine keepsMeta_get fun ram cursors => ?_
  refine .bind (keepsMeta_turnLog cursors.hdi (by omega) fun _ _ other kept =>
    ⟨kept.journals, kept.store, { kept.cursors with hdi := other }⟩) fun ret => keeps_onSuccess ?_
  refine keepsMeta_get fun ram cursors => ?_
  refine .bind (keepsMeta_ubiWrite (inMeta_of_inPair cursors.hdi (by omega))) fun ret =>
    keeps_onSuccess ?_
  refine .bind (.modifies fun ram store kept => ?_) fun _ => .pure _
  exact ⟨kept.journals, kept.store, { kept.cursors with }⟩

theorem keepsMeta_bdtWrite {rounds i : Nat} : KeepsMeta l earlier before (bdtWrite l rounds i) := by
  induction rounds generalizing i with
  | zero => exact .pure _
  | succ rounds ih =>
      refine keepsMeta_get fun ram cursors => ?_
      exact .bind (keepsMeta_ubiWrite (inMeta_of_inPair cursors.bdt (by omega))) fun ret =>
        keeps_onSuccess ih

theorem keepsMeta_bdtCommit : KeepsMeta l earlier before (bdtCommit l) := by
  refine keepsMeta_get fun ram cursors => ?_
  refine .bind (keepsMeta_turnLog cursors.bdt (by omega) fun _ _ other kept =>
    ⟨kept.journals, kept.store, { kept.cursors with bdt := other }⟩) fun ret => keeps_onSuccess ?_
  refine .bind keepsMeta_bdtWrite fun ret => keeps_onSuccess ?_
  refine .bind (.modifies fun ram store kept => ?_) fun _ => .pure _
  exact ⟨kept.journals, kept.store, { kept.cursors with }⟩

theorem keepsMeta_rootCommit : KeepsMeta l earlier before (rootCommit l) := by
  refine keepsMeta_get fun ram cursors => ?_
  refine .bind (keepsMeta_turnLog cursors.root (by omega) fun _ _ other kept =>
    ⟨kept.journals, kept.store, { kept.cursors with root := other }⟩) fun ret => keeps_onSuccess ?_
  refine .bind (.modifies fun ram store kept =>
    ⟨kept.journals, kept.store, { kept.cursors with }⟩) fun _ => ?_
  refine keepsMeta_get fun ram cursors => ?_
  refine .bind (keepsMeta_ubiWrite (inMeta_of_inPair cursors.root (by omega))) fun ret =>
    keeps_onSuccess ?_
  refine .bind (.modifies fun ram store kept => ?_) fun _ => .pure _
  exact ⟨kept.journals, kept.store, { kept.cursors with }⟩

/-- The page mapping code works inside its blocks. -/
theorem keepsMeta_of_keepsPmt {α : Type} {code : FtlCode D α}
    (keeps : ∀ earlier before, KeepsPmt l (IsPmtBlock l) earlier before code) :
    KeepsMeta l earlier before code := by
  intro ram store kept
  have inside : PmtWithin l (IsPmtBlock l) ram store ram store :=
    ⟨rfl, .refl _ store, kept.cursors.current, kept.cursors.reclaim⟩
  have isMeta : ∀ ram' after, PmtWithin l (IsPmtBlock l) ram store ram' after →
      MetaWithin l earlier before ram' after := by
    intro ram' after pmt
    have same := pmt.besides
    have root : ram'.rootCurrentBlock = ram.rootCurrentBlock :=
      (congrArg FtlRam.rootCurrentBlock same :)
    have bdt : ram'.bdtCurrentBlock = ram.bdtCurrentBlock :=
      (congrArg FtlRam.bdtCurrentBlock same :)
    have hdi : ram'.hdiCurrentBlock = ram.hdiCurrentBlock :=
      (congrArg FtlRam.hdiCurrentBlock same :)
    have journals : ram'.journalPart = ram.journalPart :=
      (congrArg FtlRam.journalPart same :)
    exact ⟨journals.trans kept.journals, kept.store.trans (pmt.store.mono fun _ area => area.2),
      root ▸ kept.cursors.root, bdt ▸ kept.cursors.bdt, hdi ▸ kept.cursors.hdi, pmt.current,
      pmt.reclaim⟩
  exact Code.spec_mono (keeps ram store ram store inside) (fun _ ram' after => isMeta ram' after)
    fun after ⟨ram', pmt⟩ => ⟨ram', isMeta ram' after pmt⟩

variable {fuel : Nat}

theorem keepsMeta_dataCommit (fit : l.NodesFit) :
    KeepsMeta l earlier before (dataCommit l (pmtReclaimBlocks l fuel)) := by
  have blocks := pmtBlocks_area fit.inCapacity
  refine .bind keepsMeta_hdiCommit fun ret => ?_
  refine .bind (keeps_onSuccess (keepsMeta_of_keepsPmt fun _ _ =>
    keeps_pmtCommit blocks fit.toFits (keeps_pmtReclaimBlocks blocks fit.toFits))) fun ret => ?_
  refine .bind (keeps_onSuccess keepsMeta_bdtCommit) fun ret => ?_
  refine .bind (keeps_onSuccess keepsMeta_rootCommit) fun ret => keeps_onSuccess ?_
  refine .bind (.modifies fun ram store kept => ?_) fun _ => .pure _
  exact ⟨kept.journals, kept.store, { kept.cursors with }⟩

/-! ### Loads and updates -/

theorem keepsMeta_pmtMakeRoom {block page cluster : Nat} (fit : l.NodesFit) :
    KeepsMeta l earlier before (pmtMakeRoom l (pmtReclaimBlocks l fuel) block page cluster) := by
  refine .bind .get fun ram => ?_
  split
  · exact .pure _
  · refine .bind (keepsMeta_dataCommit fit) fun ret => .bind .get fun ram => ?_
    dsimp only
    split
    · exact .pure _
    · exact .pure _

theorem keepsMeta_pmtFill {i block page cluster : Nat} :
    KeepsMeta l earlier before (pmtFill l i block page cluster) := by
  refine .bind (keepsMeta_ubiRead _ _) fun answer => .bind (keepsMeta_loadNode _) fun words => ?_
  refine .bind (.modifies fun _ _ kept => ⟨kept.journals, kept.store, { kept.cursors with }⟩)
    fun _ => keeps_onSuccess ?_
  refine .bind (.modifies fun _ _ kept => ⟨kept.journals, kept.store, { kept.cursors with }⟩)
    fun _ => ?_
  exact .bind (.assert _) fun _ => .pure _

theorem keepsMeta_pmtCached {cluster : Nat} (fit : l.NodesFit) :
    KeepsMeta l earlier before (pmtCached l (pmtReclaimBlocks l fuel) cluster) := by
  refine .bind (keepsMeta_rootNode cluster) fun node => ?_
  split
  · exact .bind (keepsMeta_pmtMakeRoom fit) fun _ => keeps_onSuccess keepsMeta_pmtFill
  · exact .pure _

theorem keepsMeta_pmtSlot (cluster : Nat) : KeepsMeta l earlier before (pmtSlot l cluster) := by
  refine .bind (keepsMeta_rootNode cluster) fun node => ?_
  split
  · exact .pure _
  · exact .halt _

theorem keepsMeta_pmtDropPage (i pageAddr : Nat) :
    KeepsMeta l earlier before (pmtDropPage l i pageAddr) := by
  refine .bind .get fun ram => ?_
  dsimp only
  split
  · exact .bind (.modifies fun _ _ kept => ⟨kept.journals, kept.store, { kept.cursors with }⟩)
      fun _ => .bind .get fun _ => .assert _
  · exact .pure _

theorem keepsMeta_pmtWord (block page : Nat) :
    KeepsMeta l earlier before (pmtWord l block page) := by
  unfold pmtWord
  split
  · exact .bind (.assert _) fun _ => .pure _
  · exact .bind (.assert _) fun _ => .pure _

/-- `PMT_Update` stays in the tables. -/
theorem keepsMeta_pmtUpdate {pageAddr block page : Nat} (fit : l.NodesFit) :
    KeepsMeta l earlier before (pmtUpdate l (pmtReclaimBlocks l fuel) pageAddr block page) := by
  refine .bind (keepsMeta_pmtCached fit) fun ret => keeps_onSuccess ?_
  refine .bind (keepsMeta_pmtSlot _) fun i => .bind (keepsMeta_pmtDropPage _ _) fun _ => ?_
  refine .bind (keepsMeta_pmtWord _ _) fun word =>
    .bind (.modifies fun _ _ kept => ?_) fun _ => .pure _
  exact ⟨kept.journals, kept.store, { kept.cursors with }⟩

end Keeps

end OpenNfm.Ftl
