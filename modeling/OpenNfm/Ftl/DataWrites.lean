import OpenNfm.Ftl.DataPages

/-!
# Writes, reads and trims of logical pages

`DATA_Write` appends a page to a journal with room and enters it in the page mapping, or takes
a trimmed page out of the mapping.  `FTL_Read` reads the page that the mapping names.  All of
them keep the log of the data pages, which an append makes one page longer.
-/

namespace OpenNfm.Ftl

open OpenNfm.Program

variable {l : Layout} {D : Type}

/-- The page mapping, the log of the data pages, and what the memory and the device say about
them. -/
structure FtlKept (l : Layout) (strict : Prop) (active : Active) (log : PageLog D)
    (block : Role → Nat → Nat) (maps : PageMap) (ram : FtlRam) (store : UbiStore D) : Prop where
  powered : NodesPowered l strict maps ram store
  inData : maps.InData l
  data : DataKept l active log block maps ram store.pages

section Kept

variable {strict : Prop} {active : Active} {log : PageLog D} {block : Role → Nat → Nat}
  {maps : PageMap} {ram ram' : FtlRam} {store after : UbiStore D} {reclaim : FtlCode D Status}
  {fuel : Nat}

/-! ## Code of the tables -/

theorem FtlKept.framed (kept : FtlKept l strict active log block maps ram store)
    (powered : NodesPowered l strict (maps.onRoot store after) ram' after)
    (frame : DataFrame l ram store ram' after) :
    FtlKept l strict active log block (maps.onRoot store after) ram' after where
  powered := powered
  inData := kept.inData.onRoot store after
  data := kept.data.framed rfl frame.journals frame.counts frame.within.pages

/-- A change of variables that neither the tables nor the data depend on. -/
theorem FtlKept.besides (kept : FtlKept l strict active log block maps ram store)
    (step : DataStep l ram store ram' store) (journals : ram'.journalPart = ram.journalPart)
    (counts : ram'.blockDirtyTable = ram.blockDirtyTable) :
    FtlKept l strict active log block maps ram' store where
  powered := kept.powered.data step
  inData := kept.inData
  data := kept.data.framed rfl journals (fun b _ => congrFun counts b) fun _ _ => rfl

theorem FtlKept.withPolls (kept : FtlKept l strict active log block maps ram store)
    (polls : List Status) : FtlKept l strict active log block maps ram (store.withPolls polls) where
  powered := kept.powered.data ⟨rfl, rfl, fun _ _ => rfl, ⟨fun _ _ => rfl, [], rfl, by simp⟩⟩
  inData := kept.inData
  data := kept.data

/-- `DATA_Commit` makes the mapping durable. -/
theorem FtlKept.onReturn_dataCommit {post : Status → FtlRam → UbiStore D → Prop}
    (kept : FtlKept l strict active log block maps ram store) (fit : l.DataFits)
    (three : ThreeTables l) (good : DataReclaim l strict reclaim)
    (meets : ∀ ram' after, FtlKept l strict active log block (maps.onRoot store after) ram' after →
      post .success ram' after) :
    OnReturn l (dataCommit l reclaim) post ram store := by
  obtain ⟨place, nodes, current, reclaimBlock, poweredAt⟩ := kept.powered
  have committed : OnReturn l (dataCommit l reclaim) (fun ret ram' after => ret = .success ∧
      NodesPowered l strict (maps.onRoot store after) ram' after) ram store := by
    refine Ftl.onReturn_dataCommit fit.toNodesFit three good.toGoodReclaim poweredAt ?_
    intro place' nodes' current' reclaimBlock' ram' after powered' _ next
    rw [← maps.onRoot_next next] at powered'
    exact ⟨rfl, _, _, _, _, powered'⟩
  apply (committed.and (framed_dataCommit fit.toNodesFit good kept.powered)).mono
  rintro ret ram' after ⟨⟨rfl, powered'⟩, frame⟩
  exact meets ram' after (kept.framed powered' frame)

/-- `PMT_Search` finds the home of a logical page. -/
theorem FtlKept.onReturn_pmtSearch {addr : Nat}
    {post : Status × Nat × Nat → FtlRam → UbiStore D → Prop}
    (kept : FtlKept l strict active log block maps ram store) (fit : l.DataFits)
    (three : ThreeTables l) (good : DataReclaim l strict reclaim) (isAddr : addr < l.ftlCapacity)
    (meets : ∀ maps' ram' after, FtlKept l strict active log block maps' ram' after →
      post (.success, log.home addr) ram' after) :
    OnReturn l (pmtSearch l reclaim addr) post ram store := by
  refine framed_pmtSearch fit.toNodesFit three good kept.powered
    (clusterIndex_lt fit.toNodesFit isAddr) fun ram' after powered' frame => ?_
  rw [kept.data.homes addr isAddr]
  exact meets _ ram' after (kept.framed powered' frame)

/-! ## Reads -/

/-- `FTL_Read` reads the value of the logical page, and zeros if it has none. -/
theorem FtlKept.onReturn_ftlReadWith {addr : Nat} {zero : D}
    {post : Status × FtlPage D → FtlRam → UbiStore D → Prop}
    (kept : FtlKept l strict active log block maps ram store) (fit : l.DataFits)
    (three : ThreeTables l) (good : DataReclaim l strict reclaim) (isAddr : addr < l.ftlCapacity)
    (meets : ∀ maps' ram' after, FtlKept l strict active log block maps' ram' after →
      post (.success, .data ((log.contents addr).getD zero)) ram' after) :
    OnReturn l (ftlReadWith l reclaim zero addr) post ram store := by
  rw [ftlReadWith, OnReturn.bind]
  refine kept.onReturn_pmtSearch fit three good isAddr fun maps' ram' after kept' => ?_
  dsimp only
  rw [if_pos rfl, ubiReadPage]
  rcases kept'.data.sound.home addr with lost | ⟨value, here⟩
  · have empty : log.contents addr = none := kept'.data.sound.contents_eq_none.mpr lost
    have invalid : ¬ ((log.home addr).1 ≠ invalidBlock ∧ (log.home addr).2 ≠ invalidPage) := by
      rw [lost]
      exact fun wrong => wrong.1 rfl
    rw [if_neg invalid, OnReturn.bind, OnReturn.assert]
    intro _
    refine OnReturn.pure.mpr ?_
    have met := meets maps' ram' after kept'
    rw [empty] at met
    exact met
  · have mapped : log.home addr ≠ nowhere := by
      intro lost
      rw [lost, kept'.data.sound.nowhere_blank] at here
      exact Option.some_ne_none _ here.symm
    have isData := kept'.data.home_isData mapped
    have less := (kept'.data.sound.programmed _ _).mp ⟨_, here⟩
    obtain ⟨number, programmed⟩ := (kept'.data.onDevice _ isData).stored _ _ here
    have valid : (log.home addr).1 ≠ invalidBlock ∧ (log.home addr).2 ≠ invalidPage := by
      have isPage := Nat.lt_of_lt_of_le less (kept'.data.full_le _)
      have pages := fit.pages
      refine ⟨Nat.ne_of_lt (fit.lt_invalidBlock isData), ?_⟩
      unfold Layout.width at isPage
      unfold invalidPage allOnes
      omega
    rw [if_pos valid, OnReturn.bind]
    refine OnReturn.read fun _ _ => OnReturn.pure.mpr ?_
    have content : log.contents addr = some value := by
      rw [PageLog.contents, here]
      rfl
    have met := meets maps' ram' after kept'
    rw [content] at met
    rw [Nand.answer, programmed]
    exact met

/-! ## Writes -/

section Rows

variable {hot other : Bool} {j k page addr word : Nat} {spare : Spare}

theorem journalMeta_setJournal :
    journalMeta other (setJournal hot j word ram) = journalMeta other ram := by
  cases hot <;> cases other <;> rfl

theorem journal_setJournal_other (different : other ≠ hot) :
    journal other (setJournal hot j word ram) = journal other ram := by
  cases hot <;> cases other <;> first | rfl | exact absurd rfl different

theorem journalMeta_numberPage_other (different : (other, k) ≠ (hot, j)) :
    journalMeta other (numberPage l hot j addr ram) k = journalMeta other ram k := by
  by_cases same : other = hot
  · subst same
    rw [journalMeta_numberPage]
    exact Function.update_of_ne (fun wrong => different (by rw [wrong])) _ _
  · cases hot <;> cases other <;> first | rfl | exact absurd rfl same

theorem Role.word_numberPage (role : Role) :
    role.word (numberPage l hot j addr ram) = role.word ram := by
  cases role with
  | write other => cases hot <;> cases other <;> rfl
  | reclaim => cases hot <;> rfl

theorem Role.word_setJournal :
    (Role.write hot).word (setJournal hot j word ram) j = word := by
  rw [Role.word, journal_setJournal, Function.update_self]

theorem Role.word_setJournal_other {role : Role} (different : (role, k) ≠ (.write hot, j)) :
    role.word (setJournal hot j word ram) k = role.word ram k := by
  cases role with
  | write other =>
      by_cases same : other = hot
      · subst same
        rw [Role.word, Role.word, journal_setJournal]
        exact Function.update_of_ne (fun wrong => different (by rw [wrong])) _ _
      · rw [Role.word, Role.word, journal_setJournal_other same]
  | reclaim => cases hot <;> rfl

end Rows

/-- The number and the row of the next page are no part of the tables. -/
theorem dataStep_numberPage {hot : Bool} {j addr b page : Nat} {content : Page (FtlPage D)}
    (isData : IsDataBlock l b) :
    DataStep l ram store (numberPage l hot j addr ram) (store.write b page content) := by
  have within : WithinBlocks (fun block => l.dataStartBlock ≤ block ∧ block < l.capacity) store
      (store.write b page content) := (WithinBlocks.refl _ store).write isData content
  cases hot <;> exact ⟨rfl, rfl, fun _ _ => rfl, within⟩

theorem dataStep_setJournal {hot : Bool} {j word : Nat} (within : WithinBlocks
    (fun block => l.dataStartBlock ≤ block ∧ block < l.capacity) store after) :
    DataStep l ram store (setJournal hot j word ram) after := by
  cases hot <;> exact ⟨rfl, rfl, fun _ _ => rfl, within⟩

theorem blockDirtyTable_numberPage {hot : Bool} {j addr : Nat} :
    (numberPage l hot j addr ram).blockDirtyTable = ram.blockDirtyTable := by
  cases hot <;> rfl

theorem blockDirtyTable_setJournal {hot : Bool} {j word : Nat} :
    (setJournal hot j word ram).blockDirtyTable = ram.blockDirtyTable := by
  cases hot <;> rfl

/-- The homes of the logical pages when one of them has got a new page. -/
theorem DataKept.entered {pages : Nand (FtlPage D)} {store₁ store₂ : UbiStore D} {b page addr : Nat}
    (kept : DataKept l active log block maps ram pages) (fit : l.DataFits)
    (isData : IsDataBlock l b) (isPage : page ≤ l.width) :
    ∀ other < l.ftlCapacity,
      wordPlace l (((maps.onRoot store₁ store₂).enter l addr (pageWord l b page)).word l other) =
        Function.update log.home addr (b, page) other := by
  intro other isOther
  by_cases same : other = addr
  · rw [same, PageMap.word_enter_self, Function.update_self, fit.wordPlace_pageWord isData isPage]
  · rw [PageMap.word_enter_other same, Function.update_of_ne same, PageMap.word_onRoot]
    exact kept.homes other isOther

/-- The row of the next page in the spare areas of its journal. -/
theorem rowOf_numberPage {pages : Nand (FtlPage D)} {hot other : Bool} {j k addr : Nat} {value : D}
    (kept : DataKept l active log block maps ram pages) (fit : l.DataFits)
    (isActive : active (.write hot) j) (room : log.fill (block (.write hot) j) < l.width)
    (isActive' : active (.write other) k) :
    RowOf l (log.append (block (.write hot) j) addr value) (block (.write other) k)
      (journalMeta other (numberPage l hot j addr ram) k) := by
  by_cases same : (other, k) = (hot, j)
  · obtain ⟨rfl, rfl⟩ := Prod.mk.inj same
    have onPage : PmNode.page l.g (journal other ram k) = log.fill (block (.write other) k) :=
      kept.page_word fit isActive
    intro _
    rw [append_fill_same, journalMeta_numberPage, Function.update_self, onPage]
    exact (kept.rows other k isActive room).append_row
  · have different : block (.write other) k ≠ block (.write hot) j := by
      intro sameBlock
      obtain ⟨sameRole, rfl⟩ := kept.apart _ _ _ _ isActive' isActive sameBlock
      exact same (by rw [Role.write.inj sameRole])
    rw [journalMeta_numberPage_other same]
    exact (kept.rows other k isActive').other different

/-- What an append leaves behind when the pointer of the journal has moved on. -/
theorem FtlKept.appended {hot : Bool} {j addr number : Nat} {content : D} {ram₁ : FtlRam}
    {first store₁ : UbiStore D} (kept : FtlKept l strict active log block maps ram store)
    (fit : l.DataFits) (isActive : active (.write hot) j) (isAddr : addr < l.ftlCapacity)
    (room : log.fill (block (.write hot) j) < l.width)
    (powered : NodesPowered l strict ((maps.onRoot first store₁).enter l addr
      (pageWord l (block (.write hot) j) (log.fill (block (.write hot) j)))) ram₁ store₁)
    (journals : ram₁.journalPart = (numberPage l hot j addr ram).journalPart)
    (counts : ∀ b, ¬ InMeta l b →
      ram₁.blockDirtyTable b = dropCount l (maps.word l addr) ram.blockDirtyTable b)
    (within : WithinBlocks (fun b => l.dataStartBlock ≤ b ∧ b < l.capacity) store₁ after)
    (others : ∀ b, IsDataBlock l b → b ≠ block (.write hot) j → after.pages b = store.pages b)
    (here : after.pages (block (.write hot) j) =
      appendPage l (store.pages (block (.write hot) j)) (log.fill (block (.write hot) j))
        ⟨.data content, ⟨addr, number⟩⟩
        ⟨.spares (journalMeta hot (numberPage l hot j addr ram) j), .ones⟩) :
    ∃ maps', FtlKept l strict active (log.append (block (.write hot) j) addr content) block maps'
      (setJournal hot j (PmNode.setBlockPage l.g (block (.write hot) j)
        (log.fill (block (.write hot) j) + 1)) ram₁) after := by
  have isData := kept.data.inArea _ j isActive
  have rowsSame :
      ∀ other, journalMeta other ram₁ = journalMeta other (numberPage l hot j addr ram) :=
    journalMeta_of_journalPart journals
  refine ⟨_, powered.data (dataStep_setJournal within), (kept.inData.onRoot first _).enter ?_, ?_⟩
  · refine IsDataPlace.outside fit.toNodesFit (Or.inl ⟨isData.1, isData.2, ?_⟩)
    exact Nat.lt_trans room fit.width_lt_page
  · refine kept.data.append fit isActive isAddr room
      (kept.data.entered fit isData (Nat.le_of_lt room))
      Role.word_setJournal (fun role' j' _ different => ?_) (fun other k isActive' => ?_)
      (fun b isData' => ?_) others here fun last => ?_
    · rw [Role.word_setJournal_other different, Role.word_of_journalPart journals,
        Role.word_numberPage]
    · rw [journalMeta_setJournal, rowsSame]
      exact rowOf_numberPage kept.data fit isActive room isActive'
    · rw [blockDirtyTable_setJournal]
      exact counts b isData'.outside
    · have onPage : PmNode.page l.g (journal hot ram j) = log.fill (block (.write hot) j) :=
        kept.data.page_word fit isActive
      rw [← last, journalMeta_numberPage, Function.update_self, onPage]
      exact (kept.data.rows hot j isActive room).append_row

/-- The page behind the last one of a journal is programmed, and the page mapping names it. -/
theorem FtlKept.onReturn_dataAppendWith {hot : Bool} {j addr : Nat} {content : D}
    {post : Status → FtlRam → UbiStore D → Prop}
    (kept : FtlKept l strict active log block maps ram store) (fit : l.DataFits)
    (three : ThreeTables l) (good : DataReclaim l strict reclaim)
    (isActive : active (.write hot) j) (isAddr : addr < l.ftlCapacity)
    (room : log.fill (block (.write hot) j) < l.width)
    (meets : ∀ maps' ram' after, FtlKept l strict active
      (log.append (block (.write hot) j) addr content) block maps' ram' after →
      post .success ram' after) :
    OnReturn l (dataAppendWith l reclaim hot j addr content) post ram store := by
  have isData := kept.data.inArea _ j isActive
  have onBlock : PmNode.block l.g (journal hot ram j) = block (.write hot) j :=
    kept.data.block_word fit isActive
  have onPage : PmNode.page l.g (journal hot ram j) = log.fill (block (.write hot) j) :=
    kept.data.page_word fit isActive
  rw [dataAppendWith, OnReturn.bind, OnReturn.get]
  dsimp only
  rw [onBlock, onPage, OnReturn.bind, OnReturn.modifies, OnReturn.bind]
  refine OnReturn.write fun _ _ _ => ?_
  rw [dataAppendedWith, onSuccess_success, OnReturn.bind]
  refine updated_pmtUpdate fit.toNodesFit three good
    (kept.powered.data (dataStep_numberPage isData)) kept.inData
    (clusterIndex_lt fit.toNodesFit isAddr) fun ram₁ store₁ powered₁ updated => ?_
  have pointer : PmNode.page l.g (journal hot (setJournal hot j (PmNode.setBlockPage l.g
      (block (.write hot) j) (log.fill (block (.write hot) j) + 1)) ram₁) j) =
      log.fill (block (.write hot) j) + 1 := by
    rw [journal_setJournal, Function.update_self]
    exact fit.page_data isData room
  have counts : ∀ b, ¬ InMeta l b →
      ram₁.blockDirtyTable b = dropCount l (maps.word l addr) ram.blockDirtyTable b := by
    intro b outside
    rw [updated.counts b outside, blockDirtyTable_numberPage]
  have before : ∀ b, IsDataBlock l b → store₁.pages b = (store.write (block (.write hot) j)
      (log.fill (block (.write hot) j)) ⟨.data content, ⟨addr, edition hot ram⟩⟩).pages b :=
    fun b isData' => updated.within.pages b isData'.outside
  have others :
      ∀ b, IsDataBlock l b → b ≠ block (.write hot) j → store₁.pages b = store.pages b := by
    intro b isData' different
    rw [before b isData']
    exact Function.update_of_ne different _ _
  have here :
      store₁.pages (block (.write hot) j) = Function.update (store.pages (block (.write hot) j))
      (log.fill (block (.write hot) j)) (some ⟨.data content, ⟨addr, edition hot ram⟩⟩) := by
    rw [before _ isData]
    exact Function.update_self _ _ _
  have table : journalMeta hot (setJournal hot j (PmNode.setBlockPage l.g (block (.write hot) j)
      (log.fill (block (.write hot) j) + 1)) ram₁) =
        journalMeta hot (numberPage l hot j addr ram) := by
    rw [journalMeta_setJournal]
    exact journalMeta_of_journalPart updated.journals hot
  rw [onSuccess_success, OnReturn.bind, OnReturn.bind, OnReturn.modifies, OnReturn.pure,
    OnReturn.bind, OnReturn.get, pointer]
  split
  · rename_i last
    rw [dataWriteMeta, OnReturn.bind, OnReturn.get, table]
    refine OnReturn.write fun _ _ _ => ?_
    have within : WithinBlocks (fun b => l.dataStartBlock ≤ b ∧ b < l.capacity) store₁
        (store₁.write (block (.write hot) j) (l.pagePerPhyBlock - 1)
          ⟨.spares (journalMeta hot (numberPage l hot j addr ram) j), .ones⟩) :=
      (WithinBlocks.refl _ store₁).write isData _
    have here' : (store₁.write (block (.write hot) j) (l.pagePerPhyBlock - 1)
        ⟨.spares (journalMeta hot (numberPage l hot j addr ram) j), .ones⟩).pages
          (block (.write hot) j) =
        appendPage l (store.pages (block (.write hot) j)) (log.fill (block (.write hot) j))
          ⟨.data content, ⟨addr, edition hot ram⟩⟩
          ⟨.spares (journalMeta hot (numberPage l hot j addr ram) j), .ones⟩ := by
      rw [appendPage, if_pos last, ← here]
      exact Function.update_self _ _ _
    obtain ⟨maps', kept'⟩ := kept.appended fit isActive isAddr room powered₁ updated.journals counts
      within (fun b isData' different =>
        (Function.update_of_ne different _ _).trans (others b isData' different)) here'
    exact meets maps' _ _ kept'
  · rename_i notLast
    obtain ⟨maps', kept'⟩ := kept.appended fit isActive isAddr room powered₁ updated.journals counts
      (.refl _ store₁) others (by rw [appendPage, if_neg notLast, here])
    exact OnReturn.pure.mpr (meets maps' _ _ kept')

/-! ## `DATA_Write` -/

/-- The logical page has the data of the buffer, or none. -/
def PageLog.written (log : PageLog D) (b addr : Nat) (buffer : Option D) : PageLog D :=
  match buffer with
  | some content => log.append b addr content
  | none => log.forget nowhere addr

theorem contents_written {pages : Nand (FtlPage D)} {role : Role} {j addr : Nat} {buffer : Option D}
    (kept : DataKept l active log block maps ram pages) (fit : l.DataFits)
    (isActive : active role j) :
    (PageLog.written log (block role j) addr buffer).contents =
      Function.update log.contents addr buffer := by
  cases buffer with
  | some content =>
      exact kept.sound.contents_append (fit.ne_nowhere (kept.inArea role j isActive))
  | none => exact kept.sound.contents_forget

/-- A page is taken out of the mapping. -/
theorem FtlKept.onReturn_pmtTrim {addr : Nat} {post : Status → FtlRam → UbiStore D → Prop}
    (kept : FtlKept l strict active log block maps ram store) (fit : l.DataFits)
    (three : ThreeTables l) (good : DataReclaim l strict reclaim) (isAddr : addr < l.ftlCapacity)
    (meets : ∀ maps' ram' after,
      FtlKept l strict active (log.forget nowhere addr) block maps' ram' after →
      post .success ram' after) :
    OnReturn l (pmtUpdate l reclaim addr invalidBlock invalidPage) post ram store := by
  refine updated_pmtUpdate fit.toNodesFit three good kept.powered kept.inData
    (clusterIndex_lt fit.toNodesFit isAddr) fun ram' after powered updated => ?_
  refine meets _ ram' after ⟨powered, (kept.inData.onRoot store after).enter ?_, ?_⟩
  · exact IsDataPlace.outside fit.toNodesFit (Or.inr ⟨rfl, rfl⟩)
  · refine kept.data.forget fit isAddr (fun other isOther => ?_) updated.journals
      (fun b isData => updated.counts b isData.outside)
      fun b isData => updated.within.pages b isData.outside
    by_cases same : other = addr
    · rw [same, PageMap.word_enter_self, Function.update_self, wordPlace_trimmed]
    · rw [PageMap.word_enter_other same, Function.update_of_ne same, PageMap.word_onRoot]
      exact kept.data.homes other isOther

/-- `DATA_Write` gives the logical page its data in one of the journals with room. -/
theorem FtlKept.onReturn_dataWriteWith {hot : Bool} {addr : Nat} {buffer : Option D}
    {post : Status → FtlRam → UbiStore D → Prop}
    (kept : FtlKept l strict (allActive l) log block maps ram store) (fit : l.DataFits)
    (three : ThreeTables l) (good : DataReclaim l strict reclaim) (isAddr : addr < l.ftlCapacity)
    (someRoom : ∃ j < l.journalBlockCount, log.fill (block (.write hot) j) < l.width)
    (meets : ∀ j < l.journalBlockCount, log.fill (block (.write hot) j) < l.width →
      ∀ maps' ram' after, FtlKept l strict (allActive l)
        (PageLog.written log (block (.write hot) j) addr buffer) block maps' ram' after →
        post .success ram' after) :
    OnReturn l (dataWriteWith l reclaim fuel addr buffer hot) post ram store := by
  have hasRoom : ∀ j < l.journalBlockCount, JournalHasRoom l hot ram j ↔
      log.fill (block (.write hot) j) < l.width := by
    intro j isJournal
    have isActive : allActive l (.write hot) j := isJournal
    have onPage : PmNode.page l.g (journal hot ram j) = log.fill (block (.write hot) j) :=
      kept.data.page_word fit isActive
    rw [JournalHasRoom, onPage]
  obtain ⟨i, isJournal, room⟩ := someRoom
  rw [dataWriteWith, OnReturn.bind]
  refine onReturn_dataFindLoop ⟨i, isJournal, (hasRoom i isJournal).mpr room⟩
    (fun j polls isJournal' room' => ?_) fun j ret polls failed => ?_
  · rw [OnReturn.bind, OnReturn.assert]
    intro _
    have room'' := (hasRoom j isJournal').mp room'
    have polled := kept.withPolls polls
    cases buffer with
    | some content =>
        exact polled.onReturn_dataAppendWith fit three good isJournal' isAddr room''
          (meets j isJournal' room'')
    | none =>
        exact polled.onReturn_pmtTrim fit three good isAddr (meets j isJournal' room'')
  · rw [OnReturn.bind, OnReturn.assert]
    exact fun success => absurd success failed

end Kept

end OpenNfm.Ftl
