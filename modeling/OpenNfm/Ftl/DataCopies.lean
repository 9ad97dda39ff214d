import OpenNfm.Ftl.DataSearch

/-!
# The copies of a reclaim

The directory of a dirty block names the owners of its pages.  A page whose owner still has it
is copied to the reclaim journal of the same die, which the page mapping names then.  Behind the
last page the block has no valid page any more, and no logical page has another value.
-/

namespace OpenNfm.Ftl

open OpenNfm.Program

variable {l : Layout} {D : Type}

/-! ## What copies do to the log -/

/-- Pages of a dirty block have moved to a reclaim journal. -/
structure Moved (l : Layout) (dirty target : Nat) (log log' : PageLog D) : Prop where
  contents : log'.contents = log.contents
  fills : ∀ b, b ≠ target → log'.fill b = log.fill b
  others : ∀ b, b ≠ dirty → b ≠ target →
    live l.ftlCapacity log'.home b = live l.ftlCapacity log.home b
  total : log'.fill target + live l.ftlCapacity log'.home dirty =
    log.fill target + live l.ftlCapacity log.home dirty

section Moved

variable {dirty target addr : Nat} {log log' log'' : PageLog D} {value : D}

theorem Moved.refl (dirty target : Nat) (log : PageLog D) : Moved l dirty target log log :=
  ⟨rfl, fun _ _ => rfl, fun _ _ _ => rfl, rfl⟩

theorem Moved.trans (first : Moved l dirty target log log')
    (second : Moved l dirty target log' log'') : Moved l dirty target log log'' where
  contents := second.contents.trans first.contents
  fills b different := (second.fills b different).trans (first.fills b different)
  others b notDirty notTarget :=
    (second.others b notDirty notTarget).trans (first.others b notDirty notTarget)
  total := second.total.trans first.total

/-- One copy. -/
theorem Moved.copy (sound : log.Sound l.ftlCapacity l.width nowhere) (isAddr : addr < l.ftlCapacity)
    (different : dirty ≠ target) (valid : target ≠ nowhere.1) (inBlock : (log.home addr).1 = dirty)
    (here : log.pages (log.home addr).1 (log.home addr).2 = some (addr, value)) :
    Moved l dirty target log (log.append target addr value) := by
  have homeChange : (log.append target addr value).home =
      Function.update log.home addr (target, log.fill target) := rfl
  refine ⟨sound.contents_copy valid here, fun b other => append_fill_block _ other,
    fun b notDirty notTarget => ?_, ?_⟩
  · have change := live_update log.home isAddr (target, log.fill target) b
    rw [if_neg (by rw [inBlock]; exact Ne.symm notDirty), if_neg (Ne.symm notTarget)] at change
    rw [homeChange]
    exact change
  · have change := live_update log.home isAddr (target, log.fill target) dirty
    rw [if_pos inBlock, if_neg (Ne.symm different)] at change
    rw [homeChange, append_fill_same]
    omega

end Moved

/-! ## One page -/

/-- A reclaim of the journals of one kind while it copies: the reclaim journals have no stale
pages, and the spare areas in memory are theirs. -/
structure DataCopying (l : Layout) (strict : Prop) (hot : Bool) (log : PageLog D)
    (block : Role → Nat → Nat) (maps : PageMap) (ram : FtlRam) (store : UbiStore D) : Prop where
  kept : FtlKept l strict (reclaimActive l hot 0) log block maps ram store
  rows : ∀ j < l.journalBlockCount,
    Names log (block .reclaim j) (log.fill (block .reclaim j)) (journalMeta hot ram j)
  fresh : ∀ j < l.journalBlockCount, ram.blockDirtyTable (block .reclaim j) = 0

/-- A dirty block that is no journal. -/
structure IdleBlock (l : Layout) (hot : Bool) (block : Role → Nat → Nat) (b : Nat) : Prop where
  isData : IsDataBlock l b
  idle : ∀ role j, reclaimActive l hot 0 role j → b ≠ block role j

theorem reclaim_active {hot : Bool} {i j : Nat} (isJournal : j < l.journalBlockCount) :
    reclaimActive l hot i .reclaim j :=
  ⟨isJournal, fun wrong => by cases wrong⟩

/-- The journals of the other kind are in use during a reclaim. -/
theorem other_kind {hot other : Bool} {j : Nat}
    (isActive : reclaimActive l hot 0 (.write other) j) :
    other ≠ hot := by
  rintro rfl
  exact Nat.not_lt_zero j (isActive.2 rfl)

section Copy

variable {strict : Prop} {hot : Bool} {log : PageLog D} {block : Role → Nat → Nat} {maps : PageMap}
  {ram : FtlRam} {store : UbiStore D} {reclaim : FtlCode D Status} {j page total addr dirty : Nat}
  {spare : Spare} {word : Nat}

theorem journalMeta_setJournalMeta :
    journalMeta hot (setJournalMeta hot j page spare ram) =
      Function.update (journalMeta hot ram) j
        (Function.update (journalMeta hot ram j) page spare) := by
  cases hot <;> rfl

theorem journalMeta_setJournalMeta_other {other : Bool} (different : other ≠ hot) :
    journalMeta other (setJournalMeta hot j page spare ram) = journalMeta other ram := by
  cases hot <;> cases other <;> first | rfl | exact absurd rfl different

theorem journalMeta_setReclaimJournal :
    journalMeta hot (setReclaimJournal j word ram) = journalMeta hot ram := by
  cases hot <;> rfl

theorem Role.word_setJournalMeta (role : Role) :
    role.word (setJournalMeta hot j page spare ram) = role.word ram := by
  cases role with
  | write other => cases hot <;> cases other <;> rfl
  | reclaim => cases hot <;> rfl

theorem Role.word_setReclaimJournal :
    Role.reclaim.word (setReclaimJournal j word ram) j = word :=
  Function.update_self _ _ _

theorem Role.word_setReclaimJournal_other {role : Role} {k : Nat}
    (different : (role, k) ≠ (.reclaim, j)) :
    role.word (setReclaimJournal j word ram) k = role.word ram k := by
  cases role with
  | write other => cases other <;> rfl
  | reclaim => exact Function.update_of_ne (fun wrong => different (by rw [wrong])) _ _

theorem blockDirtyTable_setJournalMeta :
    (setJournalMeta hot j page spare ram).blockDirtyTable = ram.blockDirtyTable := by
  cases hot <;> rfl

/-- The memory when a page has been copied. -/
theorem dataStep_copied :
    DataStep l ram store
      (setReclaimJournal j word (setJournalMeta hot j page spare ram)) store := by
  cases hot <;> exact ⟨rfl, rfl, fun _ _ => rfl, .refl _ store⟩

theorem dataStep_write {b : Nat} {content : Page (FtlPage D)} (isData : IsDataBlock l b) :
    DataStep l ram store ram (store.write b page content) :=
  ⟨rfl, rfl, fun _ _ => rfl, (WithinBlocks.refl _ store).write isData content⟩

/-- `PMT_Search` keeps the copies. -/
theorem DataCopying.onReturn_pmtSearch
    {post : Status × Nat × Nat → FtlRam → UbiStore D → Prop}
    (copying : DataCopying l strict hot log block maps ram store) (fit : l.DataFits)
    (three : ThreeTables l) (good : DataReclaim l strict reclaim) (isAddr : addr < l.ftlCapacity)
    (meets : ∀ maps' ram' after, DataCopying l strict hot log block maps' ram' after →
      post (.success, log.home addr) ram' after) :
    OnReturn l (pmtSearch l reclaim addr) post ram store := by
  refine framed_pmtSearch fit.toNodesFit three good copying.kept.powered
    (clusterIndex_lt fit.toNodesFit isAddr) fun ram' after powered frame => ?_
  rw [copying.kept.data.homes addr isAddr]
  refine meets _ ram' after ⟨copying.kept.framed powered frame, ?_, ?_⟩
  · rw [journalMeta_of_journalPart frame.journals]
    exact copying.rows
  · intro k isJournal
    have isData := copying.kept.data.inArea _ k (reclaim_active isJournal)
    rw [frame.counts _ isData.outside]
    exact copying.fresh k isJournal

/-- What a copy leaves behind when the pointer of the reclaim journal has moved on. -/
theorem DataCopying.copied {value : D} {ram₁ : FtlRam} {first store₁ : UbiStore D}
    (copying : DataCopying l strict hot log block maps ram store) (fit : l.DataFits)
    (isJournal : j < l.journalBlockCount) (isIdle : IdleBlock l hot block dirty)
    (isAddr : addr < l.ftlCapacity) (home : log.home addr = (dirty, page))
    (room : log.fill (block .reclaim j) + 1 < l.width)
    (powered : NodesPowered l strict ((maps.onRoot first store₁).enter l addr
      (pageWord l (block .reclaim j) (log.fill (block .reclaim j)))) ram₁ store₁)
    (journals : ram₁.journalPart = ram.journalPart)
    (counts : ∀ b, ¬ InMeta l b →
      ram₁.blockDirtyTable b = dropCount l (maps.word l addr) ram.blockDirtyTable b)
    (pages : ∀ b, IsDataBlock l b → store₁.pages b = (store.write (block .reclaim j)
      (log.fill (block .reclaim j)) ⟨.data value, ⟨addr, total⟩⟩).pages b) :
    ∃ maps', DataCopying l strict hot (log.append (block .reclaim j) addr value) block maps'
      (setReclaimJournal j (PmNode.setBlockPage l.g (block .reclaim j)
        (log.fill (block .reclaim j) + 1))
        (setJournalMeta hot j (log.fill (block .reclaim j)) ⟨addr, total⟩ ram₁)) store₁ := by
  have kept := copying.kept
  have isActive : reclaimActive l hot 0 .reclaim j := reclaim_active isJournal
  have isData := kept.data.inArea _ j isActive
  have counts' : ∀ b, IsDataBlock l b →
      (setReclaimJournal j (PmNode.setBlockPage l.g (block .reclaim j)
        (log.fill (block .reclaim j) + 1))
        (setJournalMeta hot j (log.fill (block .reclaim j)) ⟨addr, total⟩ ram₁)).blockDirtyTable b =
      dropCount l (maps.word l addr) ram.blockDirtyTable b := by
    intro b isData'
    rw [← counts b isData'.outside]
    exact congrFun blockDirtyTable_setJournalMeta b
  have rowsSame : ∀ other, journalMeta other ram₁ = journalMeta other ram :=
    journalMeta_of_journalPart journals
  refine ⟨_, ⟨powered.data dataStep_copied, (kept.inData.onRoot first _).enter ?_, ?_⟩,
    fun k isJournal' => ?_, fun k isJournal' => ?_⟩
  · refine IsDataPlace.outside fit.toNodesFit (Or.inl ⟨isData.1, isData.2, ?_⟩)
    exact Nat.lt_of_le_of_lt (kept.data.full_le _) fit.width_lt_page
  · have appended : store₁.pages (block .reclaim j) =
        appendPage l (store.pages (block .reclaim j)) (log.fill (block .reclaim j))
          ⟨.data value, ⟨addr, total⟩⟩ ⟨.spares fun _ => ⟨addr, total⟩, .ones⟩ := by
      rw [pages _ isData, appendPage, if_neg (Nat.ne_of_lt room)]
      exact Function.update_self _ _ _
    refine kept.data.append fit isActive isAddr (Nat.lt_of_succ_lt room)
      (kept.data.entered fit isData (kept.data.full_le _)) Role.word_setReclaimJournal
      (fun role' j' _ different => ?_) (fun other k isActive' => ?_) counts'
      (fun b isData' different => ?_) appended fun last => absurd last (Nat.ne_of_lt room)
    · rw [Role.word_setReclaimJournal_other different, Role.word_setJournalMeta,
        Role.word_of_journalPart journals]
    · have notWrite : block (.write other) k ≠ block .reclaim j := fun same => by
        have roles := (kept.data.apart _ _ _ _ isActive' isActive same).1
        cases roles
      rw [journalMeta_setReclaimJournal, journalMeta_setJournalMeta_other (other_kind isActive'),
        rowsSame]
      exact (kept.data.rows other k isActive').other notWrite
    · rw [pages b isData']
      exact Function.update_of_ne different _ _
  · rw [journalMeta_setReclaimJournal, journalMeta_setJournalMeta, rowsSame]
    by_cases same : k = j
    · rw [same, append_fill_same, Function.update_self]
      exact (copying.rows j isJournal).append_row
    · have different : block .reclaim k ≠ block .reclaim j := fun sameBlock =>
        same (kept.data.apart _ _ _ _ (reclaim_active isJournal') isActive sameBlock).2
      rw [append_fill_block _ different, Function.update_of_ne same]
      exact (copying.rows k isJournal').other different
  · have isActive' : reclaimActive l hot 0 .reclaim k := reclaim_active isJournal'
    have isData' := kept.data.inArea _ k isActive'
    have notHome : (log.home addr).1 ≠ block .reclaim k := by
      rw [home]
      exact isIdle.idle _ k isActive'
    rw [counts' _ isData', kept.data.dropCount_eq fit isAddr isData', if_neg notHome]
    exact copying.fresh k isJournal'

/-- A valid page of a dirty block goes to a reclaim journal with room for another one. -/
theorem DataCopying.onReturn_dataCopyPageWith {value : D}
    {post : Status → FtlRam → UbiStore D → Prop}
    (copying : DataCopying l strict hot log block maps ram store) (fit : l.DataFits)
    (three : ThreeTables l) (good : DataReclaim l strict reclaim)
    (isJournal : j < l.journalBlockCount) (isIdle : IdleBlock l hot block dirty)
    (isAddr : addr < l.ftlCapacity) (home : log.home addr = (dirty, page))
    (here : log.pages dirty page = some (addr, value))
    (room : log.fill (block .reclaim j) + 1 < l.width)
    (meets : ∀ maps' ram' after, DataCopying l strict hot
      (log.append (block .reclaim j) addr value) block
      maps' ram' after → post .success ram' after) :
    OnReturn l (dataCopyPageWith l reclaim hot j dirty page (block .reclaim j)
      (log.fill (block .reclaim j)) total addr) post ram store := by
  have kept := copying.kept
  have isData := kept.data.inArea _ j (reclaim_active isJournal)
  obtain ⟨number, programmed⟩ := (kept.data.onDevice dirty isIdle.isData).stored page _ here
  rw [dataCopyPageWith, OnReturn.bind]
  refine OnReturn.read fun _ _ => ?_
  rw [Nand.answer, programmed]
  dsimp only
  rw [onSuccess_success, OnReturn.bind]
  refine OnReturn.write fun _ _ _ => ?_
  rw [onSuccess_success, OnReturn.bind]
  refine updated_pmtUpdate fit.toNodesFit three good (kept.powered.data (dataStep_write isData))
    kept.inData (clusterIndex_lt fit.toNodesFit isAddr) fun ram₁ store₁ powered₁ updated => ?_
  rw [OnReturn.bind, OnReturn.assert]
  intro _
  rw [OnReturn.bind, OnReturn.modifies, onSuccess_success, OnReturn.bind, OnReturn.modifies,
    OnReturn.pure]
  obtain ⟨maps', copying'⟩ := copying.copied fit isJournal isIdle isAddr home room powered₁
    updated.journals updated.counts fun b isData' => updated.within.pages b isData'.outside
  exact meets maps' _ _ copying'

/-! ## The pages of a block -/

/-- A dirty block while its pages are copied: the pages before `page` have no owner any more, and
the reclaim journal has room for the others. -/
structure CopyingPages (l : Layout) (log : PageLog D) (dirty target page : Nat)
    (table : Nat → Spare) : Prop where
  names : Names log dirty l.width table
  ahead : ∀ addr, (log.home addr).1 = dirty → page ≤ (log.home addr).2
  room : log.fill target + live l.ftlCapacity log.home dirty < l.width

section Pages

variable {target : Nat} {table : Nat → Spare} {value : D}

/-- The page has another owner, or none. -/
theorem CopyingPages.skipped (copyPages : CopyingPages l log dirty target page table)
    (sound : log.Sound l.ftlCapacity l.width nowhere) (valid : dirty ≠ nowhere.1)
    (isPage : page < l.width) (elsewhere : log.home (table page).first ≠ (dirty, page)) :
    CopyingPages l log dirty target (page + 1) table where
  names := copyPages.names
  ahead := by
    intro addr inBlock
    have atLeast := copyPages.ahead addr inBlock
    refine Nat.lt_of_le_of_ne atLeast fun same => elsewhere ?_
    obtain ⟨value, owner⟩ := copyPages.names page isPage
    obtain ⟨value', here⟩ := sound.at_home inBlock valid
    rw [← same, owner] at here
    rw [(Prod.mk.inj (Option.some.inj here)).1]
    exact Prod.ext inBlock same.symm
  room := copyPages.room

/-- The page is copied. -/
theorem CopyingPages.copied (copyPages : CopyingPages l log dirty target page table)
    (sound : log.Sound l.ftlCapacity l.width nowhere) (valid : dirty ≠ nowhere.1)
    (different : dirty ≠ target) (home : log.home addr = (dirty, page))
    (moved : Moved l dirty target log (log.append target addr value)) :
    CopyingPages l (log.append target addr value) dirty target (page + 1) table where
  names := copyPages.names.other different
  ahead := by
    intro other inBlock
    have homeChange : (log.append target addr value).home =
        Function.update log.home addr (target, log.fill target) := rfl
    rw [homeChange] at inBlock ⊢
    by_cases same : other = addr
    · rw [same, Function.update_self] at inBlock
      exact absurd inBlock.symm different
    · rw [Function.update_of_ne same] at inBlock ⊢
      have atLeast := copyPages.ahead other inBlock
      refine Nat.lt_of_le_of_ne atLeast fun samePage => same ?_
      have mapped : log.home other ≠ nowhere := fun lost => valid (by rw [← inBlock, lost])
      refine sound.home_inj mapped ?_
      rw [home]
      exact Prod.ext inBlock samePage.symm
  room := by
    rw [moved.total]
    exact copyPages.room

/-- Behind the last page nothing is left. -/
theorem CopyingPages.empty (copyPages : CopyingPages l log dirty target l.width table)
    (sound : log.Sound l.ftlCapacity l.width nowhere) (valid : dirty ≠ nowhere.1) :
    live l.ftlCapacity log.home dirty = 0 := by
  refine live_eq_zero.mpr fun addr _ inBlock => ?_
  have atLeast := copyPages.ahead addr inBlock
  have less := Nat.lt_of_lt_of_le (sound.home_lt inBlock valid) (sound.inWidth dirty)
  exact Nat.not_lt.mpr atLeast less

/-- The valid pages from `page` on are copied. -/
theorem DataCopying.onReturn_dataCopyPagesWith {rounds : Nat}
    {post : Nat × Status → FtlRam → UbiStore D → Prop}
    (copying : DataCopying l strict hot log block maps ram store) (fit : l.DataFits)
    (three : ThreeTables l) (good : DataReclaim l strict reclaim)
    (isJournal : j < l.journalBlockCount) (isIdle : IdleBlock l hot block dirty)
    (copyPages : CopyingPages l log dirty (block .reclaim j) page table)
    (toEnd : page + rounds = l.width)
    (meets : ∀ log' maps' ram' after, DataCopying l strict hot log' block maps' ram' after →
      Moved l dirty (block .reclaim j) log log' → live l.ftlCapacity log'.home dirty = 0 →
      post (total + live l.ftlCapacity log.home dirty, .success) ram' after) :
    OnReturn l (dataCopyPagesWith l reclaim hot j dirty (block .reclaim j) table rounds page
      (log.fill (block .reclaim j)) total .success) post ram store := by
  have valid := fit.ne_nowhere isIdle.isData
  have isActive : reclaimActive l hot 0 .reclaim j := reclaim_active isJournal
  have different := isIdle.idle .reclaim j isActive
  have validTarget := fit.ne_nowhere (copying.kept.data.inArea _ j isActive)
  induction rounds generalizing log maps ram store page total with
  | zero =>
      obtain rfl : page = l.width := toEnd
      have empty := copyPages.empty copying.kept.data.sound valid
      have met := meets log maps ram store copying (.refl _ _ log) empty
      rw [empty] at met
      exact OnReturn.pure.mpr met
  | succ rounds ih =>
      have sound := copying.kept.data.sound
      have isPage : page < l.width := by omega
      have toEnd' : page + 1 + rounds = l.width := by omega
      obtain ⟨value, here⟩ := copyPages.names page isPage
      have isAddr : (table page).first < l.ftlCapacity := sound.owner _ _ _ here
      rw [dataCopyPagesWith, if_neg (fun wrong => wrong rfl), OnReturn.bind]
      refine copying.onReturn_pmtSearch fit three good isAddr fun maps₁ ram₁ store₁ copying₁ => ?_
      dsimp only
      by_cases owned : log.home (table page).first = (dirty, page)
      · have inBlock : (log.home (table page).first).1 = dirty := congrArg Prod.fst owned
        have lives := live_pos isAddr inBlock
        have room : log.fill (block .reclaim j) + 1 < l.width :=
          Nat.lt_of_le_of_lt (Nat.add_le_add_left lives _) copyPages.room
        have atHome : log.pages (log.home (table page).first).1 (log.home (table page).first).2 =
            some ((table page).first, value) := by
          rw [owned]
          exact here
        have moved := Moved.copy sound isAddr different validTarget inBlock atHome
        have fewer : live l.ftlCapacity
            (log.append (block .reclaim j) (table page).first value).home dirty + 1 =
            live l.ftlCapacity log.home dirty := by
          have same := moved.total
          rw [append_fill_same] at same
          omega
        rw [owned, if_pos ⟨rfl, rfl, rfl⟩, OnReturn.bind]
        refine copying₁.onReturn_dataCopyPageWith fit three good isJournal isIdle isAddr owned here
          room fun maps₂ ram₂ store₂ copying₂ => ?_
        rw [if_pos rfl, ← append_fill_same]
        refine ih copying₂ (copyPages.copied sound valid different owned moved) toEnd'
          fun log' maps' ram' after copying' moved' empty => ?_
        have met := meets log' maps' ram' after copying' (moved.trans moved') empty
        rw [← fewer, Nat.add_comm _ 1, ← Nat.add_assoc] at met
        exact met
      · rw [if_neg fun wrong => owned (Prod.ext wrong.2.1 wrong.2.2)]
        exact ih copying₁ (copyPages.skipped sound valid isPage owned) toEnd' meets

/-- The valid pages of a dirty block are copied to an empty reclaim journal.  A block that was
never used has none, and no directory either. -/
theorem DataCopying.onReturn_dataCopyBlockWith {post : Nat × Status → FtlRam → UbiStore D → Prop}
    (copying : DataCopying l strict hot log block maps ram store) (fit : l.DataFits)
    (three : ThreeTables l) (good : DataReclaim l strict reclaim)
    (isJournal : j < l.journalBlockCount) (isIdle : IdleBlock l hot block dirty)
    (spare : log.fill (block .reclaim j) = 0) (stale : live l.ftlCapacity log.home dirty < l.width)
    (meets : ∀ ret log' maps' ram' after, DataCopying l strict hot log' block maps' ram' after →
      Moved l dirty (block .reclaim j) log log' → live l.ftlCapacity log'.home dirty = 0 →
      (log.fill dirty = l.width → ret = .success) →
      post (total + live l.ftlCapacity log.home dirty, ret) ram' after) :
    OnReturn l (dataCopyBlockWith l reclaim hot j dirty total) post ram store := by
  have isActive : reclaimActive l hot 0 .reclaim j := reclaim_active isJournal
  have target : PmNode.block l.g (ram.rootTable.reclaimJournal j) = block .reclaim j :=
    copying.kept.data.block_word fit isActive
  have onDevice := copying.kept.data.onDevice dirty isIdle.isData
  rw [dataCopyBlockWith, OnReturn.bind, OnReturn.get, OnReturn.bind]
  refine OnReturn.read fun _ _ => ?_
  rw [target]
  rcases (copying.kept.data.closed dirty isIdle.isData isIdle.idle).2 with full | ⟨unused, _⟩
  · obtain ⟨table, spareArea, programmed, names⟩ := onDevice.directory full
    have copyPages : CopyingPages l log dirty (block .reclaim j) 0 table :=
      ⟨names, fun _ _ => Nat.zero_le _, by rw [spare, Nat.zero_add]; exact stale⟩
    rw [Nand.answer, programmed]
    dsimp only [loadSpares]
    rw [if_pos rfl, OnReturn.bind, OnReturn.pure]
    have copied : OnReturn l (dataCopyPagesWith l reclaim hot j dirty (block .reclaim j) table
        l.width 0 (log.fill (block .reclaim j)) total .success) post ram store :=
      copying.onReturn_dataCopyPagesWith fit three good isJournal isIdle copyPages (Nat.zero_add _)
        fun log' maps' ram' after copying' moved empty =>
          meets .success log' maps' ram' after copying' moved empty fun _ => rfl
    rw [spare] at copied
    exact copied
  · have blank : log.fill dirty < l.width := unused ▸ fit.width_pos
    have noValid : live l.ftlCapacity log.home dirty = 0 := by
      have most := copying.kept.data.sound.live_le_fill (fit.ne_nowhere isIdle.isData)
      exact Nat.eq_zero_of_le_zero (unused ▸ most)
    rw [Nand.answer, onDevice.noDirectory blank]
    dsimp only
    rw [if_neg (by decide)]
    have met := meets .failure log maps ram store copying (.refl _ _ log) noValid
      fun full => absurd full (Nat.ne_of_lt blank)
    rw [noValid] at met
    exact OnReturn.pure.mpr met

/-! ## All dirty blocks -/

/-- The pages of all dirty blocks have moved to the reclaim journals. -/
structure CopiedAll (l : Layout) (spares : Nat → Nat) (blocks : List Nat) (log log' : PageLog D) :
    Prop where
  contents : log'.contents = log.contents
  fills : ∀ b, (∀ k < l.journalBlockCount, b ≠ spares k) → log'.fill b = log.fill b
  others : ∀ b, b ∉ blocks → (∀ k < l.journalBlockCount, b ≠ spares k) →
    live l.ftlCapacity log'.home b = live l.ftlCapacity log.home b
  empty : ∀ b ∈ blocks, live l.ftlCapacity log'.home b = 0
  room : ∀ k < l.journalBlockCount, log'.fill (spares k) < l.width

/-- The dirty blocks that wait for their copies, and the reclaim journals for them. -/
structure ToCopy (l : Layout) (hot : Bool) (block : Role → Nat → Nat) (log : PageLog D)
    (blocks : List Nat) (j : Nat) : Prop where
  nodup : blocks.Nodup
  inJournals : j + blocks.length = l.journalBlockCount
  idle : ∀ b ∈ blocks, IdleBlock l hot block b
  stale : ∀ b ∈ blocks, live l.ftlCapacity log.home b < l.width
  spare : ∀ k, j ≤ k → k < l.journalBlockCount → log.fill (block .reclaim k) = 0
  room : ∀ k < l.journalBlockCount, log.fill (block .reclaim k) < l.width

section All

variable {blocks rest : List Nat} {log' : PageLog D}

/-- The first of the blocks has been copied. -/
theorem ToCopy.next (toCopy : ToCopy l hot block log (dirty :: rest) j)
    (kept : DataKept l (reclaimActive l hot 0) log block maps ram store.pages)
    (moved : Moved l dirty (block .reclaim j) log log')
    (empty : live l.ftlCapacity log'.home dirty = 0) : ToCopy l hot block log' rest (j + 1) := by
  obtain ⟨nodup, inJournals, idle, stale, spare, room⟩ := toCopy
  obtain ⟨fresh, nodup'⟩ := List.nodup_cons.mp nodup
  rw [List.length_cons] at inJournals
  have isJournal : j < l.journalBlockCount := by omega
  have isActive : reclaimActive l hot 0 .reclaim j := reclaim_active isJournal
  have apart : ∀ k < l.journalBlockCount, k ≠ j → block .reclaim k ≠ block .reclaim j :=
    fun k isJournal' different same =>
      different (kept.apart _ _ _ _ (reclaim_active isJournal') isActive same).2
  refine ⟨nodup', by omega, fun b member => idle b (List.mem_cons_of_mem _ member),
    fun b member => ?_, fun k behind isJournal' => ?_, fun k isJournal' => ?_⟩
  · have notDirty : b ≠ dirty := by
      rintro rfl
      exact fresh member
    have isIdle := idle b (List.mem_cons_of_mem _ member)
    rw [moved.others b notDirty (isIdle.idle _ _ isActive)]
    exact stale b (List.mem_cons_of_mem _ member)
  · rw [moved.fills _ (apart k isJournal' (by omega))]
    exact spare k (by omega) isJournal'
  · by_cases same : k = j
    · have total := moved.total
      have few := stale dirty List.mem_cons_self
      have none := spare j (Nat.le_refl j) isJournal
      rw [same]
      omega
    · rw [moved.fills _ (apart k isJournal' same)]
      exact room k isJournal'

theorem CopiedAll.cons {log'' : PageLog D} (isJournal : j < l.journalBlockCount)
    (fresh : dirty ∉ rest) (notSpare : ∀ k < l.journalBlockCount, dirty ≠ block .reclaim k)
    (moved : Moved l dirty (block .reclaim j) log log')
    (empty : live l.ftlCapacity log'.home dirty = 0)
    (all : CopiedAll l (block .reclaim) rest log' log'') :
    CopiedAll l (block .reclaim) (dirty :: rest) log log'' where
  contents := all.contents.trans moved.contents
  fills b different := (all.fills b different).trans (moved.fills b (different j isJournal))
  others b notMember different := by
    rw [List.mem_cons, not_or] at notMember
    rw [all.others b notMember.2 different]
    exact moved.others b notMember.1 (different j isJournal)
  empty b member := by
    rcases List.mem_cons.mp member with rfl | later
    · rw [all.others b fresh notSpare]
      exact empty
    · exact all.empty b later
  room := all.room

/-- The valid pages of the dirty blocks are copied, and their number is the sum of the counts. -/
theorem DataCopying.onReturn_dataCopyBlocksWith {ret : Status}
    {post : Nat × Status → FtlRam → UbiStore D → Prop}
    (copying : DataCopying l strict hot log block maps ram store) (fit : l.DataFits)
    (three : ThreeTables l) (good : DataReclaim l strict reclaim)
    (toCopy : ToCopy l hot block log blocks j)
    (lastFull : ∀ b ∈ blocks.getLast?, log.fill b = l.width) (last : blocks = [] → ret = .success)
    (meets : ∀ log' maps' ram' after, DataCopying l strict hot log' block maps' ram' after →
      CopiedAll l (block .reclaim) blocks log log' →
      post (total + (blocks.map fun b => live l.ftlCapacity log.home b).sum, .success) ram' after) :
    OnReturn l (dataCopyBlocksWith l reclaim hot blocks j total ret) post ram store := by
  induction blocks generalizing log maps ram store j total ret with
  | nil =>
      rw [dataCopyBlocksWith, last rfl]
      exact OnReturn.pure.mpr (meets log maps ram store copying
        ⟨rfl, fun _ _ => rfl, fun _ _ _ => rfl, fun _ wrong => absurd wrong List.not_mem_nil,
          toCopy.room⟩)
  | cons dirty rest ih =>
      have isIdle := toCopy.idle dirty List.mem_cons_self
      have fresh := (List.nodup_cons.mp toCopy.nodup).1
      have isJournal : j < l.journalBlockCount := by
        have total := toCopy.inJournals
        rw [List.length_cons] at total
        omega
      have notSpare : ∀ k < l.journalBlockCount, dirty ≠ block .reclaim k := fun k isJournal' =>
        isIdle.idle _ k (reclaim_active isJournal')
      rw [dataCopyBlocksWith, OnReturn.bind]
      refine copying.onReturn_dataCopyBlockWith fit three good isJournal isIdle
        (toCopy.spare j (Nat.le_refl j) isJournal) (toCopy.stale dirty List.mem_cons_self)
        fun ret' log₁ maps₁ ram₁ store₁ copying₁ moved empty success => ?_
      have sameLive : ∀ b ∈ rest,
          live l.ftlCapacity log₁.home b = live l.ftlCapacity log.home b := by
        intro b member
        refine moved.others b ?_ ?_
        · rintro rfl
          exact fresh member
        · exact (toCopy.idle b (List.mem_cons_of_mem _ member)).idle _ _ (reclaim_active isJournal)
      refine ih copying₁ (toCopy.next copying.kept.data moved empty) (fun b isLast => ?_)
        (fun none => ?_) fun log' maps' ram' after copying' all => ?_
      · have member : b ∈ rest := List.mem_of_getLast? isLast
        have isIdle' := toCopy.idle b (List.mem_cons_of_mem _ member)
        rw [moved.fills b (isIdle'.idle _ _ (reclaim_active isJournal))]
        refine lastFull b ?_
        rw [List.getLast?_cons, Option.mem_def.mp isLast]
        rfl
      · subst none
        exact success (lastFull dirty rfl)
      · have met := meets log' maps' ram' after copying'
          (all.cons isJournal fresh notSpare moved empty)
        have sums : (rest.map fun b => live l.ftlCapacity log₁.home b) =
            rest.map fun b => live l.ftlCapacity log.home b :=
          List.map_congr_left sameLive
        rw [sums, Nat.add_assoc, ← List.sum_cons]
        exact met

end All

end Pages

end Copy

end OpenNfm.Ftl
