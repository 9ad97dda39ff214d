import OpenNfm.Ftl.DataReclaims
import OpenNfm.Ftl.NodeMount

/-!
# The data blocks behind a format and a mount

A format erases a block for each journal and counts all pages of the other data blocks as dirty.
The tables that it writes behind that are elsewhere.  A mount reads the journals and the counts
back, and finds no page to replay, so that the logical pages have no data.
-/

namespace OpenNfm.Ftl

open OpenNfm.Program

variable {l : Layout} {D : Type}

/-! ## The logs -/

/-- Code of one log: its cursor stays in its blocks, and the data is left alone. -/
structure LogFrame (l : Layout) (pair : Nat) (cursor : FtlRam → Nat) (earlier : FtlRam)
    (before : UbiStore D) (ram : FtlRam) (store : UbiStore D) : Prop where
  frame : DataFrame l earlier before ram store
  inPair : InPair pair (cursor ram)

/-- Code that stays in one pair of log blocks. -/
abbrev KeepsLog (l : Layout) (pair : Nat) (cursor : FtlRam → Nat) (earlier : FtlRam)
    (before : UbiStore D) {α : Type} (code : FtlCode D α) : Prop :=
  Code.Keeps (storeMachine l.g l.capacity) (LogFrame l pair cursor earlier before) code

section Logs

variable {pair : Nat} {cursor : FtlRam → Nat} {earlier ram ram' : FtlRam}
  {before store : UbiStore D}

/-- Variables that the data does not depend on have changed at the end. -/
theorem DataFrame.besides (frame : DataFrame l earlier before ram store)
    (journals : ram'.journalPart = ram.journalPart)
    (counts : ram'.blockDirtyTable = ram.blockDirtyTable) : DataFrame l earlier before ram' store :=
  frame.trans (.of_eq journals counts)

/-- Variables that the data does not depend on had changed at the beginning. -/
theorem DataFrame.behind {first : FtlRam} (frame : DataFrame l earlier before ram store)
    (journals : earlier.journalPart = first.journalPart)
    (counts : earlier.blockDirtyTable = first.blockDirtyTable) :
    DataFrame l first before ram store :=
  .trans (.of_eq journals counts) frame

theorem DataFrame.write {block page : Nat} (frame : DataFrame l earlier before ram store)
    (inMeta : InMeta l block) (content : Page (FtlPage D)) :
    DataFrame l earlier before ram (store.write block page content) :=
  ⟨frame.journals, frame.counts, frame.within.write inMeta content⟩

theorem DataFrame.withCount {block count : Nat} (frame : DataFrame l earlier before ram store)
    (inMeta : InMeta l block) :
    DataFrame l earlier before (setDirtyCount block count ram) store := by
  refine ⟨frame.journals, fun other outside => ?_, frame.within⟩
  have different : other ≠ block := fun same => outside (same ▸ inMeta)
  exact (Function.update_of_ne different _ _).trans (frame.counts other outside)

theorem keepsLog_modify {change : FtlRam → FtlRam} (stays : ∀ ram, cursor (change ram) = cursor ram)
    (journals : ∀ ram, (change ram).journalPart = ram.journalPart)
    (counts : ∀ ram, (change ram).blockDirtyTable = ram.blockDirtyTable) :
    KeepsLog l pair cursor earlier before (modify change) :=
  .modifies fun ram _ kept =>
    ⟨kept.frame.besides (journals ram) (counts ram), (stays ram).symm ▸ kept.inPair⟩

/-- A step that knows that the cursor is in its blocks. -/
theorem keepsLog_get {α : Type} {rest : FtlRam → FtlCode D α}
    (keeps : ∀ ram, InPair pair (cursor ram) → KeepsLog l pair cursor earlier before (rest ram)) :
    KeepsLog l pair cursor earlier before (get >>= rest) := by
  intro ram store kept
  rw [Code.spec_bind, Code.spec_get]
  exact ⟨⟨ram, kept⟩, keeps ram kept.inPair ram store kept⟩

theorem keepsLog_ubiWrite {block page : Nat} {main : FtlPage D} {spare : Option Spare}
    {async : Bool} (inMeta : InMeta l block) :
    KeepsLog l pair cursor earlier before (ubiWrite block page main spare async) := by
  intro ram store kept
  have wrote : ∀ content : Page (FtlPage D),
      LogFrame l pair cursor earlier before ram (store.write block page content) := fun content =>
    ⟨⟨kept.frame.journals, kept.frame.counts, kept.frame.within.write inMeta content⟩, kept.inPair⟩
  exact returns_ubiWrite ⟨ram, kept⟩ fun _ _ _ => ⟨⟨ram, wrote _⟩, wrote _⟩

/-- A full log goes on in the other block of its pair. -/
theorem keepsLog_turnLog {block page : Nat} {setCursor : Nat → Nat → FtlRam → FtlRam}
    (inPair : InPair pair block) (isTable : pair < 3)
    (moves : ∀ block page ram, cursor (setCursor block page ram) = block)
    (journals : ∀ block page ram, (setCursor block page ram).journalPart = ram.journalPart)
    (counts : ∀ block page ram, (setCursor block page ram).blockDirtyTable = ram.blockDirtyTable) :
    KeepsLog l pair cursor earlier before (turnLog l block page setCursor) := by
  have other : InPair pair (block ^^^ 1) := (pair_div block).trans inPair
  unfold turnLog
  split
  · intro ram store kept
    rw [Code.spec_bind]
    refine returns_ubiErase ⟨ram, kept⟩ fun _ => ?_
    have erased : LogFrame l pair cursor earlier before ram (store.erase (block ^^^ 1)) :=
      ⟨⟨kept.frame.journals, kept.frame.counts,
        kept.frame.within.erase (inMeta_of_inPair other isTable)⟩, kept.inPair⟩
    have turned : LogFrame l pair cursor earlier before (setCursor (block ^^^ 1) 0 ram)
        (store.erase (block ^^^ 1)) :=
      ⟨erased.frame.besides (journals _ _ ram) (counts _ _ ram), (moves _ _ ram).symm ▸ other⟩
    rw [onSuccess_success, Code.spec_bind, Code.spec_modify, Code.spec_pure]
    exact ⟨⟨ram, erased⟩, ⟨ram, erased⟩, ⟨_, turned⟩, turned⟩
  · exact .pure _

theorem keepsLog_hdiCommit : KeepsLog l 2 FtlRam.hdiCurrentBlock earlier before (hdiCommit l) := by
  refine keepsLog_get fun ram inPair => .bind (keepsLog_turnLog inPair (by omega) (fun _ _ _ => rfl)
    (fun _ _ _ => rfl) fun _ _ _ => rfl) fun ret => keeps_onSuccess ?_
  refine keepsLog_get fun ram inPair => .bind (keepsLog_ubiWrite
    (inMeta_of_inPair inPair (by omega))) fun ret => keeps_onSuccess ?_
  exact .bind (keepsLog_modify (fun _ => rfl) (fun _ => rfl) fun _ => rfl) fun _ => .pure _

theorem keepsLog_bdtWrite {rounds i : Nat} :
    KeepsLog l 0 FtlRam.bdtCurrentBlock earlier before (bdtWrite l rounds i) := by
  induction rounds generalizing i with
  | zero => exact .pure _
  | succ rounds ih =>
      exact keepsLog_get fun ram inPair => .bind (keepsLog_ubiWrite
        (inMeta_of_inPair inPair (by omega))) fun ret => keeps_onSuccess ih

theorem keepsLog_bdtCommit : KeepsLog l 0 FtlRam.bdtCurrentBlock earlier before (bdtCommit l) := by
  refine keepsLog_get fun ram inPair => .bind (keepsLog_turnLog inPair (by omega) (fun _ _ _ => rfl)
    (fun _ _ _ => rfl) fun _ _ _ => rfl) fun ret => keeps_onSuccess ?_
  refine .bind keepsLog_bdtWrite fun ret => keeps_onSuccess ?_
  exact .bind (keepsLog_modify (fun _ => rfl) (fun _ => rfl) fun _ => rfl) fun _ => .pure _

theorem keepsLog_rootCommit :
    KeepsLog l 1 FtlRam.rootCurrentBlock earlier before (rootCommit l) := by
  refine keepsLog_get fun ram inPair => .bind (keepsLog_turnLog inPair (by omega) (fun _ _ _ => rfl)
    (fun _ _ _ => rfl) fun _ _ _ => rfl) fun ret => keeps_onSuccess ?_
  refine .bind (keepsLog_modify (fun _ => rfl) (fun _ => rfl) fun _ => rfl) fun _ => ?_
  refine keepsLog_get fun ram inPair => .bind (keepsLog_ubiWrite
    (inMeta_of_inPair inPair (by omega))) fun ret => keeps_onSuccess ?_
  exact .bind (keepsLog_modify (fun _ => rfl) (fun _ => rfl) fun _ => rfl) fun _ => .pure _

/-- The first block of a log is erased, and the log begins there. -/
theorem framed_logFormat {block : Nat} {code : FtlCode D Status} (isTable : pair < 3)
    (keeps : ∀ earlier before, KeepsLog l pair cursor earlier before code)
    (inPair : InPair pair block) (onBlock : cursor ram = block) :
    OnReturn l (do
      let ret ← ubiErase block block
      onSuccess ret code) (fun _ ram' after => DataFrame l ram store ram' after) ram store := by
  rw [OnReturn.bind]
  refine OnReturn.erase fun _ => ?_
  have erased : LogFrame l pair cursor ram store ram (store.erase block) :=
    ⟨⟨rfl, fun _ _ => rfl, (WithinBlocks.refl _ store).erase (inMeta_of_inPair inPair isTable)⟩,
      onBlock ▸ inPair⟩
  rw [onSuccess_success]
  exact Code.spec_mono (keeps ram store ram _ erased) (fun _ _ _ kept => kept.frame)
    fun _ _ => trivial

theorem framed_hdiFormat :
    OnReturn l (hdiFormat l) (fun _ ram' after => DataFrame l ram store ram' after) ram store := by
  rw [hdiFormat, OnReturn.bind, OnReturn.modifies, OnReturn.bind, OnReturn.modifies]
  have inPair : InPair 2 Layout.hdiBlock0 := by decide
  refine (framed_logFormat (by omega) (fun _ _ => keepsLog_hdiCommit) inPair rfl).mono
    fun ret ram' after frame => ?_
  exact frame.behind rfl rfl

theorem framed_bdtFormat :
    OnReturn l (bdtFormat l) (fun _ ram' after => DataFrame l ram store ram' after) ram store := by
  rw [bdtFormat, OnReturn.bind, OnReturn.modifies]
  have inPair : InPair 0 Layout.bdtBlock0 := by decide
  refine (framed_logFormat (by omega) (fun _ _ => keepsLog_bdtCommit) inPair rfl).mono
    fun ret ram' after frame => ?_
  exact frame.behind rfl rfl

theorem framed_rootFormat :
    OnReturn l (rootFormat l) (fun _ ram' after => DataFrame l ram store ram' after) ram store := by
  rw [rootFormat, OnReturn.bind, OnReturn.modifies]
  have inPair : InPair 1 Layout.rootBlock0 := by decide
  refine (framed_logFormat (by omega) (fun _ _ => keepsLog_rootCommit) inPair rfl).mono
    fun ret ram' after frame => ?_
  exact frame.behind rfl rfl

/-! ## The page mapping table -/

/-- The nodes of a format fill the blocks of the table in their order, and leave one of them. -/
theorem formatBlock_isPmt {cluster block page : Nat} (fit : l.NodesFit)
    (position : cluster = (block - Layout.pmtStartBlock) * l.width + page)
    (behind : Layout.pmtStartBlock ≤ block) (le : cluster ≤ pmtClusterCount l) :
    IsPmtBlock l (block + 1) := by
  have fits := clusters_fit fit
  have two := fit.two
  have full : block - Layout.pmtStartBlock ≤ cluster / l.width := by
    rw [Nat.le_div_iff_mul_le (by unfold Layout.width; omega), position]
    omega
  have more := Nat.div_le_div_right (c := l.width) le
  unfold Layout.width at full more
  refine ⟨by omega, ?_⟩
  unfold Layout.dataStartBlock
  omega

theorem framed_pmtFormatClusters {rounds cluster block page : Nat} (fit : l.NodesFit)
    (frame : DataFrame l earlier before ram store)
    (position : cluster = (block - Layout.pmtStartBlock) * l.width + page)
    (behind : Layout.pmtStartBlock ≤ block) (room : page < l.width)
    (total : cluster + rounds = pmtClusterCount l) :
    OnReturn l (pmtFormatClusters l rounds cluster block page) (fun result ram' after =>
      IsPmtBlock l (result.2.1 + 1) ∧ InMeta l result.2.1 ∧
        DataFrame l earlier before ram' after) ram
      store := by
  induction rounds generalizing cluster block page ram store with
  | zero =>
      have next := formatBlock_isPmt fit position behind total.le
      exact OnReturn.pure.mpr ⟨next, Nat.lt_of_succ_lt next.2, frame⟩
  | succ rounds ih =>
      have next := formatBlock_isPmt fit position behind (by omega)
      have inMeta : InMeta l block := Nat.lt_of_succ_lt next.2
      have inBlock : page < l.pagePerPhyBlock - 1 := room
      rw [pmtFormatClusters, OnReturn.bind, pmtFormatNode, OnReturn.bind]
      refine OnReturn.write fun _ _ _ => ?_
      rw [onSuccess_success, OnReturn.bind, OnReturn.modifies, OnReturn.pure]
      dsimp only
      rw [if_pos inBlock, if_neg fun wrong => wrong rfl]
      by_cases full : page + 1 = l.pagePerPhyBlock - 1
      · rw [if_neg fun wrong => wrong full, OnReturn.bind, pmtFormatMeta, OnReturn.bind,
          OnReturn.get, OnReturn.bind]
        refine OnReturn.write fun _ _ _ => ?_
        rw [onSuccess_success, OnReturn.bind, OnReturn.modifies, OnReturn.pure,
          if_neg fun wrong => wrong rfl]
        refine ih ?_ ?_ (Nat.le_succ_of_le behind) (Nat.lt_of_le_of_lt (Nat.zero_le _) room)
          (by omega)
        · refine .withCount (.write (.besides (frame.write inMeta _) ?_ ?_) inMeta _) inMeta
          · rfl
          · rfl
        · have shift : block + 1 - Layout.pmtStartBlock = block - Layout.pmtStartBlock + 1 := by
            omega
          rw [shift, Nat.succ_mul]
          unfold Layout.width at position ⊢
          omega
      · rw [if_pos full]
        refine ih (.besides (frame.write inMeta _) rfl rfl) ?_ behind ?_ (by omega)
        · omega
        · unfold Layout.width
          omega

/-- `PMT_Format` leaves the data alone. -/
theorem framed_pmtFormat (fit : l.NodesFit) :
    OnReturn l (pmtFormat l) (fun _ ram' after => DataFrame l ram store ram' after) ram store := by
  have width : 0 < l.width := by
    have := fit.two
    unfold Layout.width
    omega
  rw [pmtFormat, OnReturn.bind, OnReturn.assert]
  intro _
  rw [OnReturn.bind]
  have position : 0 = (Layout.pmtStartBlock - Layout.pmtStartBlock) * l.width + 0 := by
    rw [Nat.sub_self, Nat.zero_mul]
  refine (framed_pmtFormatClusters fit (.refl ram store) position (Nat.le_refl _) width
    (Nat.zero_add _)).mono ?_
  rintro ⟨ret, block, page⟩ ram' after ⟨next, inMeta, frame⟩
  dsimp only at next inMeta ⊢
  refine OnReturn.onSuccess (fun _ => ?_) fun _ => frame
  rw [OnReturn.bind, OnReturn.modifies, OnReturn.pure]
  have counted : DataFrame l ram store (setDirtyCount (block + 1) 0 (setDirtyCount block 0 ram'))
      after := (frame.withCount inMeta).withCount next.2
  exact counted.besides rfl rfl

end Logs

/-! ## The journals of a format -/

/-- The blocks of the journals behind a format. -/
def formatBlock (l : Layout) : Role → Nat → Nat
  | .write true, j => l.dataStartBlock + j
  | .write false, j => l.dataStartBlock + l.journalBlockCount + j
  | .reclaim, j => l.dataStartBlock + 2 * l.journalBlockCount + j

/-- A journal gets a new word. -/
def Role.set (role : Role) : Nat → Nat → FtlRam → FtlRam :=
  match role with
  | .write hot => setJournal hot
  | .reclaim => setReclaimJournal

/-- The first journals of one kind have got blocks, one behind the other. -/
structure KindFormatted (l : Layout) (role : Role) (first count : Nat) (earlier : FtlRam)
    (before : UbiStore D) (ram : FtlRam) (store : UbiStore D) : Prop where
  words : ∀ j < count, role.word ram j = placeWord l (first + j, 0)
  others : ∀ role', role' ≠ role → role'.word ram = role'.word earlier
  counts : ∀ b, ram.blockDirtyTable b =
    if first ≤ b ∧ b < first + count then 0 else earlier.blockDirtyTable b
  blank : ∀ b, before.pages b = (fun _ => none) → store.pages b = fun _ => none

/-- All journals have blocks of their own. -/
structure JournalsFormatted (l : Layout) (ram : FtlRam) (store : UbiStore D) : Prop where
  words : ∀ role, ∀ j < l.journalBlockCount, role.word ram j = placeWord l (formatBlock l role j, 0)
  counts : ∀ b, IsDataBlock l b → ram.blockDirtyTable b =
    if b < l.dataStartBlock + 3 * l.journalBlockCount then 0 else l.width
  blank : ∀ b, IsDataBlock l b → store.pages b = fun _ => none

section Journals

variable {role : Role} {first count rounds : Nat} {earlier ram ram' : FtlRam}
  {before store after : UbiStore D}

theorem Role.word_set {j word : Nat} : role.word (role.set j word ram) j = word := by
  cases role with
  | write hot => exact Role.word_setJournal
  | reclaim => exact Role.word_setReclaimJournal

theorem Role.word_set_other {role' : Role} {j k word : Nat} (different : (role', k) ≠ (role, j)) :
    role'.word (role.set j word ram) k = role'.word ram k := by
  cases role with
  | write hot => exact Role.word_setJournal_other different
  | reclaim => exact Role.word_setReclaimJournal_other different

theorem Role.blockDirtyTable_set {j word : Nat} :
    (role.set j word ram).blockDirtyTable = ram.blockDirtyTable := by
  cases role <;> rfl

/-- The next journal gets its block. -/
theorem KindFormatted.next (kept : KindFormatted l role first count earlier before ram store) :
    KindFormatted l role first (count + 1) earlier before
      (setDirtyCount (first + count) 0
        (role.set count (PmNode.setBlockPage l.g (first + count) 0) ram))
      (store.erase (first + count)) where
  words j upTo := by
    have sameWord : ∀ role' : Role, role'.word (setDirtyCount (first + count) 0
        (role.set count (PmNode.setBlockPage l.g (first + count) 0) ram)) =
        role'.word (role.set count (PmNode.setBlockPage l.g (first + count) 0) ram) :=
          fun role' => by
      cases role' <;> rfl
    rw [sameWord]
    rcases Nat.lt_succ_iff_lt_or_eq.mp upTo with earlier | rfl
    · rw [Role.word_set_other fun wrong => absurd (Prod.mk.inj wrong).2 (Nat.ne_of_lt earlier)]
      exact kept.words j earlier
    · exact Role.word_set
  others role' different := by
    rw [← kept.others role' different]
    funext k
    have stays : role'.word (role.set count (PmNode.setBlockPage l.g (first + count) 0) ram) k =
        role'.word ram k := Role.word_set_other fun wrong => different (Prod.mk.inj wrong).1
    rw [← stays]
    cases role' <;> rfl
  counts b := by
    by_cases here : b = first + count
    · rw [here, if_pos (by omega)]
      exact Function.update_self _ _ _
    · have same : (setDirtyCount (first + count) 0
          (role.set count (PmNode.setBlockPage l.g (first + count) 0) ram)).blockDirtyTable b =
          ram.blockDirtyTable b := by
        have set :
            (role.set count (PmNode.setBlockPage l.g (first + count) 0) ram).blockDirtyTable =
            ram.blockDirtyTable := Role.blockDirtyTable_set
        rw [← set]
        exact Function.update_of_ne here _ _
      rw [same, kept.counts b]
      refine if_congr ?_ rfl rfl
      omega
  blank b blank := by
    by_cases here : b = first + count
    · rw [here]
      exact Function.update_self _ _ _
    · rw [← kept.blank b blank]
      exact Function.update_of_ne here _ _

theorem onReturn_dataFormatBlocks_kind {post : Nat × Status → FtlRam → UbiStore D → Prop}
    (kept : KindFormatted l role first count earlier before ram store)
    (meets : ∀ ram' after,
      KindFormatted l role first (count + rounds) earlier before ram' after →
      post (first + (count + rounds), .success) ram' after) :
    OnReturn l (dataFormatBlocks l role.set rounds count (first + count) .success) post ram
      store := by
  induction rounds generalizing count ram store with
  | zero => exact OnReturn.pure.mpr (meets ram store kept)
  | succ rounds ih =>
      rw [dataFormatBlocks, onSuccess_success, OnReturn.bind]
      refine OnReturn.erase fun _ => ?_
      rw [if_pos rfl, OnReturn.bind, OnReturn.modifies]
      have same : count + 1 + rounds = count + (rounds + 1) := by omega
      refine ih kept.next fun ram' after kept' => ?_
      rw [same] at kept' ⊢
      exact meets ram' after kept'

/-- The journals of one kind get the blocks from the first one on. -/
theorem onReturn_dataFormatBlocks_all (role : Role) (first : Nat)
    {post : Nat × Status → FtlRam → UbiStore D → Prop}
    (meets : ∀ ram' after, KindFormatted l role first rounds ram store ram' after →
      post (first + rounds, .success) ram' after) :
    OnReturn l (dataFormatBlocks l role.set rounds 0 first .success) post ram store := by
  have start : KindFormatted l role first 0 ram store ram store := by
    refine ⟨fun j wrong => absurd wrong (Nat.not_lt_zero j), fun _ _ => rfl, fun b => ?_,
      fun _ => id⟩
    rw [if_neg fun wrong => by omega]
  have formatted : OnReturn l (dataFormatBlocks l role.set rounds 0 (first + 0) .success) post ram
      store := by
    refine onReturn_dataFormatBlocks_kind start fun ram' after kept => ?_
    rw [Nat.zero_add] at kept ⊢
    exact meets ram' after kept
  exact formatted

/-- `DATA_Format` erases a block for each journal, and counts the other blocks as dirty. -/
theorem onReturn_dataFormat_journals {post : Status → FtlRam → UbiStore D → Prop} (fit : l.DataFits)
    (blank : ∀ block page, store.pages block page = none)
    (meets : ∀ ram' after, JournalsFormatted l ram' after → post .success ram' after) :
    OnReturn l (dataFormat l) post ram store := by
  have blocks := fit.blocks
  rw [dataFormat, OnReturn.bind, OnReturn.modifies, OnReturn.bind]
  refine onReturn_dataFormatBlocks_all (.write true) l.dataStartBlock fun ram₁ store₁ hot => ?_
  rw [OnReturn.bind]
  refine onReturn_dataFormatBlocks_all (.write false) (l.dataStartBlock + l.journalBlockCount)
    fun ram₂ store₂ cold => ?_
  rw [OnReturn.bind]
  refine onReturn_dataFormatBlocks_all .reclaim
    (l.dataStartBlock + l.journalBlockCount + l.journalBlockCount) fun ram₃ store₃ spare => ?_
  refine OnReturn.pure.mpr (meets ram₃ store₃ ⟨?_, fun b isData => ?_, fun b _ => ?_⟩)
  · rintro (hot' | _) j isJournal
    · cases hot'
      · rw [spare.others (.write false) (by decide)]
        exact cold.words j isJournal
      · rw [spare.others (.write true) (by decide), cold.others (.write true) (by decide)]
        exact hot.words j isJournal
    · have place : l.dataStartBlock + l.journalBlockCount + l.journalBlockCount + j =
          formatBlock l .reclaim j := by
        rw [formatBlock, Nat.two_mul, Nat.add_assoc l.dataStartBlock]
      rw [spare.words j isJournal, place]
  · obtain ⟨first, last⟩ := isData
    rw [spare.counts b, cold.counts b, hot.counts b]
    dsimp only
    rw [if_pos (by omega : b < l.g.cfgLogBlockCount)]
    have width : l.maxDirtyPages = l.width := rfl
    split_ifs <;> omega
  · exact spare.blank b (cold.blank b (hot.blank b (funext fun page => blank b page)))

/-- The formats of the tables leave the journals alone. -/
theorem JournalsFormatted.framed (formatted : JournalsFormatted l ram store)
    (frame : DataFrame l ram store ram' after) : JournalsFormatted l ram' after where
  words role j isJournal := by
    rw [Role.word_of_journalPart frame.journals]
    exact formatted.words role j isJournal
  counts b isData := by
    rw [frame.counts b isData.outside]
    exact formatted.counts b isData
  blank b isData := by
    rw [frame.within.pages b isData.outside]
    exact formatted.blank b isData

theorem JournalsFormatted.onSuccess {ret : Status} {code : FtlCode D Status}
    (formatted : JournalsFormatted l ram store)
    (framed : OnReturn l code (fun _ ram' after => DataFrame l ram store ram' after) ram store) :
    OnReturn l (Ftl.onSuccess ret code) (fun _ ram' after => JournalsFormatted l ram' after) ram
      store :=
  OnReturn.onSuccess (fun _ => framed.mono fun _ _ _ => formatted.framed) fun _ => formatted

/-- A format leaves journals without pages. -/
theorem onReturn_ftlFormat_journals (fit : l.DataFits)
    (blank : ∀ block page, store.pages block page = none) :
    OnReturn l (ftlFormat l) (fun _ ram' after => JournalsFormatted l ram' after) ram store := by
  simp only [ftlFormat, OnReturn, Code.spec_bind, spec_ubiFormat, onSuccess_success, spec_ubiInit]
  refine ⟨trivial, trivial, onReturn_dataFormat_journals fit blank fun ram₁ store₁ formatted₁ => ?_⟩
  refine (formatted₁.onSuccess framed_hdiFormat).mono fun ret ram₂ store₂ formatted₂ => ?_
  refine (formatted₂.onSuccess (framed_pmtFormat fit.toNodesFit)).mono
    fun ret ram₃ store₃ formatted₃ => ?_
  refine (formatted₃.onSuccess framed_bdtFormat).mono fun ret ram₄ store₄ formatted₄ => ?_
  exact formatted₄.onSuccess framed_rootFormat

/-! ## Mount -/

/-- No logical page has data. -/
def emptyLog (D : Type) : PageLog D :=
  ⟨fun _ _ => none, fun _ => 0, fun _ => nowhere⟩

/-- No logical page is mapped. -/
def emptyMap : PageMap :=
  ⟨fun _ _ => PmNode.invalid, fun _ _ => PmNode.invalid⟩

theorem emptyLog_sound (n width : Nat) : (emptyLog D).Sound n width nowhere where
  programmed _ page := by
    refine iff_of_false ?_ (Nat.not_lt_zero page)
    rintro ⟨entry, wrong⟩
    exact absurd wrong.symm (Option.some_ne_none entry)
  inWidth _ := Nat.zero_le width
  owner _ _ entry wrong := absurd wrong.symm (Option.some_ne_none entry)
  home _ := Or.inl rfl
  blank := rfl

theorem formatBlock_isData (fit : l.DataFits) {role : Role} {j : Nat}
    (isJournal : j < l.journalBlockCount) : IsDataBlock l (formatBlock l role j) ∧
      formatBlock l role j < l.dataStartBlock + 3 * l.journalBlockCount := by
  have room := fit.room
  unfold IsDataBlock
  rcases role with (_ | _) | _ <;> simp only [formatBlock] <;> omega

theorem formatBlock_inj {role role' : Role} {j j' : Nat} (isJournal : j < l.journalBlockCount)
    (isJournal' : j' < l.journalBlockCount) (same : formatBlock l role j = formatBlock l role' j') :
    role = role' ∧ j = j' := by
  rcases role with (_ | _) | _ <;> rcases role' with (_ | _) | _ <;>
    simp only [formatBlock] at same <;> first | exact ⟨rfl, by omega⟩ | (exfalso; omega)

/-- The block of a journal behind a format. -/
theorem formatBlock_surj {b : Nat} (first : l.dataStartBlock ≤ b)
    (last : b < l.dataStartBlock + 3 * l.journalBlockCount) :
    ∃ role, ∃ j < l.journalBlockCount, b = formatBlock l role j := by
  by_cases hot : b < l.dataStartBlock + l.journalBlockCount
  · refine ⟨.write true, b - l.dataStartBlock, by omega, ?_⟩
    simp only [formatBlock]
    omega
  · by_cases cold : b < l.dataStartBlock + 2 * l.journalBlockCount
    · refine ⟨.write false, b - (l.dataStartBlock + l.journalBlockCount), by omega, ?_⟩
      simp only [formatBlock]
      omega
    · refine ⟨.reclaim, b - (l.dataStartBlock + 2 * l.journalBlockCount), by omega, ?_⟩
      simp only [formatBlock]
      omega

/-- The log is empty behind a format. -/
theorem JournalsFormatted.dataKept (formatted : JournalsFormatted l ram store) (fit : l.DataFits) :
    DataKept l (allActive l) (emptyLog D) (formatBlock l) emptyMap ram store.pages where
  sound := emptyLog_sound _ _
  homes addr _ := by
    have word : emptyMap.word l addr = PmNode.invalid := rfl
    rw [word, wordPlace, if_neg fun wrong => wrong rfl]
    rfl
  outside _ _ := rfl
  inArea role j isJournal := (formatBlock_isData fit isJournal).1
  apart role j role' j' isJournal isJournal' := formatBlock_inj isJournal isJournal'
  words role j isJournal := formatted.words role j isJournal
  rows hot j _ _ page isPage := absurd isPage (Nat.not_lt_zero page)
  onDevice b isData := by
    refine ⟨fun page entry wrong => absurd wrong.symm (Option.some_ne_none entry),
      fun page _ _ => ?_, fun full => absurd full (Nat.ne_of_lt fit.width_pos), fun _ => ?_⟩
    · rw [formatted.blank b isData]
    · rw [formatted.blank b isData]
  counted role j isJournal := by
    obtain ⟨isData, less⟩ : IsDataBlock l (formatBlock l role j) ∧ _ :=
      formatBlock_isData fit isJournal
    rw [formatted.counts _ isData, if_pos less, Nat.zero_add]
    exact live_eq_zero.mpr fun addr _ same => fit.ne_nowhere isData same.symm
  closed b isData notActive := by
    have noJournal : ¬ b < l.dataStartBlock + 3 * l.journalBlockCount := fun less => by
      obtain ⟨role, j, isJournal, same⟩ := formatBlock_surj isData.1 less
      exact notActive role j isJournal same
    have noValid : live l.ftlCapacity (emptyLog D).home b = 0 :=
      live_eq_zero.mpr fun addr _ same => fit.ne_nowhere isData same.symm
    rw [formatted.counts b isData, if_neg noJournal, noValid]
    exact ⟨rfl, Or.inr ⟨rfl, rfl⟩⟩

/-- A mount loads the journals and the counts of a format. -/
theorem JournalsFormatted.mounted {lost mounted : FtlRam} {root : Root}
    (formatted : JournalsFormatted l ram store) (fit : l.DataFits)
    (loaded : TablesLoaded l lost store ram.tables root mounted after)
    (last : store.lastRoot = some ram.rootTable) : JournalsFormatted l mounted after where
  words role j isJournal := by
    obtain rfl : root = ram.rootTable := Option.some.inj (loaded.found.symm.trans last)
    rw [← formatted.words role j isJournal]
    obtain ⟨hot, cold, spare⟩ := loaded.journals
    rcases role with (_ | _) | _
    · exact congrFun cold j
    · exact congrFun hot j
    · exact congrFun spare j
  counts b isData := by
    rw [loaded.counts b (Nat.lt_of_lt_of_le isData.2 fit.table)]
    exact formatted.counts b isData
  blank b isData := by
    have outside : ¬ InTables b := fun inTables => by
      have start := isData.1
      unfold Layout.dataStartBlock at start
      exact absurd inTables (Nat.not_lt.mpr (Nat.le_of_add_right_le start))
    rw [loaded.within.pages b outside]
    exact formatted.blank b isData

end Journals

end OpenNfm.Ftl
